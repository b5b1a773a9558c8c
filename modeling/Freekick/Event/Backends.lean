import Freekick.Event.Poll

/-!
# The backends with `select` and with `epoll`: `fk_ev_select.c`, `fk_ev_epoll.c`

Both register events of descriptors below `maxFiles`; a descriptor beyond that is a fault.
-/

namespace Freekick

open Lib

/-- `fk_select_t` without the sets that `select` itself works on. -/
structure FkSelect where
  maxFiles : Nat
  savedRset : Nat → Bool
  savedWset : Nat → Bool
  maxFd : Int
  fdMap : Nat → UInt8

def fdSetsize : Nat := 1024

def fkSelectCreate (maxFiles : Nat) : Option FkSelect :=
  if maxFiles > fdSetsize then none
  else some
    { maxFiles := maxFiles
      savedRset := fun _ => false
      savedWset := fun _ => false
      maxFd := -1
      fdMap := fun _ => 0 }

/-- `type & FK_IOEV_READ` and `type & FK_IOEV_WRITE`. -/
def wantsRead (type : UInt8) : Bool := type &&& fkIoevRead != 0
def wantsWrite (type : UInt8) : Bool := type &&& fkIoevWrite != 0

/-- Gives the bit of a descriptor a value that it must not have yet. -/
def fdPut (wanted : Bool) (saved : Nat → Bool) (fd : Nat) (value : Bool) : Option (Nat → Bool) :=
  if wanted then if saved fd = value then none else some (Function.update saved fd value)
  else some saved

namespace FkSelect

variable (iompx : FkSelect) (fd : Nat) (type : UInt8)

/-- A read event that was put stays when the write event exists. -/
def fkSelectAdd : Option (FkEvRt × FkSelect) :=
  if fd < iompx.maxFiles then
    match fdPut (wantsRead type) iompx.savedRset fd true with
    | none => some (.err, iompx)
    | some rset =>
        match fdPut (wantsWrite type) iompx.savedWset fd true with
        | none => some (.err, { iompx with savedRset := rset })
        | some wset =>
            if wantsRead type || wantsWrite type then
              some (.ok, { iompx with
                savedRset := rset
                savedWset := wset
                maxFd := if (fd : Int) > iompx.maxFd then fd else iompx.maxFd
                fdMap := Function.update iompx.fdMap fd 1 })
            else some (.ok, { iompx with savedRset := rset, savedWset := wset })
  else none

/-- The search for the largest descriptor below a bound that is marked. -/
def searchMaxFd (fdMap : Nat → UInt8) : Nat → Int
  | 0 => -1
  | bound + 1 => if fdMap bound = 1 then bound else searchMaxFd fdMap bound

/-- The mark goes when both events are removed at once. -/
def fkSelectRemove : Option (FkEvRt × FkSelect) :=
  if fd < iompx.maxFiles then
    match fdPut (wantsRead type) iompx.savedRset fd false with
    | none => some (.err, iompx)
    | some rset =>
        match fdPut (wantsWrite type) iompx.savedWset fd false with
        | none => some (.err, { iompx with savedRset := rset })
        | some wset =>
            let fdMap :=
              if wantsRead type && wantsWrite type then Function.update iompx.fdMap fd 0
              else iompx.fdMap
            some (.ok, { iompx with
              savedRset := rset
              savedWset := wset
              fdMap := fdMap
              maxFd :=
                if (fd : Int) = iompx.maxFd ∧ fdMap fd = 0 then searchMaxFd fdMap (fd + 1)
                else iompx.maxFd })
  else none

end FkSelect

/-! ## `epoll` -/

def epollin : UInt32 := 0x001
def epollout : UInt32 := 0x004

inductive EpollOp where
  | ctlAdd
  | ctlMod
  | ctlDel
  deriving DecidableEq, Repr

/-- What the kernel has registered for each descriptor. -/
abbrev EpollKernel := Nat → Option UInt32

/-- `epoll_ctl`, which fails when the operation does not fit what is registered. -/
def epollCtl (kernel : EpollKernel) (op : EpollOp) (fd : Nat) (events : UInt32) :
    Option EpollKernel :=
  match op, kernel fd with
  | .ctlAdd, none => some (Function.update kernel fd (some events))
  | .ctlMod, some _ => some (Function.update kernel fd (some events))
  | .ctlDel, some _ => some (Function.update kernel fd none)
  | .ctlAdd, some _ => none
  | .ctlMod, none => none
  | .ctlDel, none => none

/-- `fk_epoll_t` and the kernel it talks to. -/
structure FkEpoll where
  maxEvs : Nat
  emask : Nat → UInt8
  kernel : EpollKernel

def fkEpollCreate (maxFiles : Nat) : FkEpoll where
  maxEvs := maxFiles
  emask := fun _ => 0
  kernel := fun _ => none

/-- The flags of `epoll` for an event type. -/
def epollFlags (type : UInt8) : UInt32 :=
  (if type &&& fkIoevRead ≠ 0 then epollin else 0) ||| (if type &&& fkIoevWrite ≠ 0 then
    epollout else 0)

namespace FkEpoll

variable (iompx : FkEpoll) (fd : Nat) (type : UInt8)

def fkEpollAdd : Option (FkEvRt × FkEpoll) :=
  if fd < iompx.maxEvs then
    let otp := iompx.emask fd
    if type &&& otp ≠ 0 then some (.err, iompx)
    else
      let oev := epollFlags otp
      let nev := epollFlags type
      let op := if oev = 0 then EpollOp.ctlAdd else .ctlMod
      match epollCtl iompx.kernel op fd (oev ||| nev) with
      | none => some (.err, iompx)
      | some kernel =>
          some (.ok,
            { iompx with kernel := kernel, emask := Function.update iompx.emask fd (otp ||| type) })
  else none

/-- One of the events has to be registered, not all. -/
def fkEpollRemove : Option (FkEvRt × FkEpoll) :=
  if fd < iompx.maxEvs then
    let otp := iompx.emask fd
    if ¬type &&& otp ≠ 0 then some (.err, iompx)
    else
      let oev := epollFlags otp
      let nev := epollFlags type
      let op := if oev = nev then EpollOp.ctlDel else .ctlMod
      match epollCtl iompx.kernel op fd (oev &&& ~~~nev) with
      | none => some (.err, iompx)
      | some kernel =>
          some
            (.ok, { iompx with
              kernel := kernel
              emask := Function.update iompx.emask fd (otp &&& ~~~type) })
  else none

end FkEpoll

/-! ## Calls with masks -/

/-- One event or both. -/
inductive IoMask where
  | one (kind : IoKind)
  | both
  deriving DecidableEq, Repr

namespace IoMask

def type : IoMask → UInt8
  | one kind => kind.type
  | both => fkIoevRead ||| fkIoevWrite

def has : IoMask → IoKind → Bool
  | one kind, other => kind == other
  | both, _ => true

def joined (mask : IoMask) (kinds : IoKind → Bool) : IoKind → Bool :=
  fun kind => kinds kind || mask.has kind

def without (mask : IoMask) (kinds : IoKind → Bool) : IoKind → Bool :=
  fun kind => kinds kind && !mask.has kind

end IoMask

/-- The events of a descriptor as a mask. -/
def ioevMask (kinds : IoKind → Bool) : UInt8 :=
  (if kinds .read then fkIoevRead else 0) ||| (if kinds .write then fkIoevWrite else 0)

/-- What the kernel is told about the events of a descriptor. -/
def kernelEntry (kinds : IoKind → Bool) : Option UInt32 :=
  if ioevMask kinds = 0 then none else some (epollFlags (ioevMask kinds))

def FkSelect.registered (iompx : FkSelect) : IoRegistered := fun fd kind =>
  match kind with
  | .read => iompx.savedRset fd
  | .write => iompx.savedWset fd

inductive MaskCall where
  | add (fd : Nat) (mask : IoMask)
  | remove (fd : Nat) (mask : IoMask)
  deriving DecidableEq, Repr

def MaskCall.fd : MaskCall → Nat
  | .add fd _ => fd
  | .remove fd _ => fd

/-- Both backends, which get the same calls. -/
structure Backends where
  select : FkSelect
  epoll : FkEpoll

def backendsCreate (maxFiles : Nat) : Option Backends :=
  (fkSelectCreate maxFiles).map fun select => ⟨select, fkEpollCreate maxFiles⟩

namespace Backends

variable (backends : Backends)

def selectAnswer : MaskCall → Option (FkEvRt × FkSelect)
  | .add fd mask => backends.select.fkSelectAdd fd mask.type
  | .remove fd mask => backends.select.fkSelectRemove fd mask.type

def epollAnswer : MaskCall → Option (FkEvRt × FkEpoll)
  | .add fd mask => backends.epoll.fkEpollAdd fd mask.type
  | .remove fd mask => backends.epoll.fkEpollRemove fd mask.type

def step (call : MaskCall) : Option Backends := do
  let (_, select) ← backends.selectAnswer call
  let (_, epoll) ← backends.epollAnswer call
  some ⟨select, epoll⟩

/-- The largest descriptor with events, `-1` when there is none. -/
structure Largest (registered : IoRegistered) (maxFd : Int) : Prop where
  bounds : ∀ fd, (registered fd ≠ fun _ => false) → (fd : Int) ≤ maxFd
  attained : maxFd = -1 ∨ ∃ fd : Nat, maxFd = fd ∧ registered fd ≠ fun _ => false

/-- The codes are the same, an error changes nothing, and the sets and the largest descriptor are
right. -/
def Agree (call : MaskCall) : Prop :=
  call.fd < backends.select.maxFiles → ∃ rt select epoll,
    backends.selectAnswer call = some (rt, select) ∧ backends.epollAnswer call = some (rt, epoll) ∧
    (rt = .err → select.registered = backends.select.registered ∧
      epoll.emask = backends.epoll.emask) ∧
    (∀ fd, epoll.emask fd = ioevMask (select.registered fd)) ∧
      Largest select.registered select.maxFd

/-- The calls for which the bookkeeping of `select` is right: no addition of both events to a
descriptor that has the write event, no removal of both from one that has one of them, and when the
largest descriptor loses its last event, both go at once and no smaller one is marked without
reason. -/
def Plain : MaskCall → Prop
  | .add fd mask =>
      fd < backends.select.maxFiles →
        ¬(mask = .both ∧ backends.select.savedRset fd = false ∧ backends.select.savedWset fd = true)
  | .remove fd mask => fd < backends.select.maxFiles →
      (mask = .both → backends.select.savedRset fd = backends.select.savedWset fd) ∧
      (fd = backends.select.maxFd →
        (mask.without (backends.select.registered fd) = fun _ => false) →
        mask = .both ∧ ∀ other < fd, backends.select.fdMap other = 1 →
        (backends.select.registered other = fun _ => false) →
          ∃ above < fd, other < above ∧ backends.select.registered above ≠ fun _ => false)

/-- What holds as long as all calls are plain. -/
structure Matched (backends : Backends) : Prop where
  files : backends.epoll.maxEvs = backends.select.maxFiles
  emask : ∀ fd, backends.epoll.emask fd = ioevMask (backends.select.registered fd)
  kernel : ∀ fd, backends.epoll.kernel fd = kernelEntry (backends.select.registered fd)
  marked : ∀ fd, (backends.select.registered fd ≠ fun _ => false) → backends.select.fdMap fd = 1
  largest : Largest backends.select.registered backends.select.maxFd

end Backends

/-! ## Masks -/

section Masks

variable (mask : IoMask) (kinds : IoKind → Bool)

theorem ioKinds_ext {first second : IoKind → Bool} (read : first .read = second .read)
    (write : first .write = second .write) :
    first = second := by
  funext kind
  cases kind
  · exact read
  · exact write

theorem wantsRead_type : wantsRead mask.type = mask.has .read := by
  rcases mask with kind | _
  · cases kind <;> decide
  · decide

theorem wantsWrite_type : wantsWrite mask.type = mask.has .write := by
  rcases mask with kind | _
  · cases kind <;> decide
  · decide

theorem mask_some : (mask.has .read || mask.has .write) = true := by
  rcases mask with kind | _
  · cases kind <;> decide
  · decide

theorem mask_both : (mask.has .read && mask.has .write) = true ↔ mask = .both := by
  rcases mask with kind | _
  · cases kind <;> decide
  · decide

theorem ioKinds_cases : kinds = (fun _ => false) ∨ kinds = IoMask.has (.one .read) ∨
    kinds = IoMask.has (.one .write) ∨ kinds = IoMask.has .both := by
  cases read : kinds .read <;> cases write : kinds .write
  · exact .inl (ioKinds_ext read write)
  · exact .inr (.inr (.inl (ioKinds_ext read write)))
  · exact .inr (.inl (ioKinds_ext read write))
  · exact .inr (.inr (.inr (ioKinds_ext read write)))

theorem type_and_ioevMask : mask.type &&& ioevMask kinds ≠ 0 ↔ ∃ kind, mask.has kind = true ∧
    kinds kind = true := by
  have kinds_iff : (∃ kind, mask.has kind = true ∧ kinds kind = true) ↔
      (mask.has .read = true ∧ kinds .read = true) ∨
        (mask.has .write = true ∧ kinds .write = true) := by
    constructor
    · rintro ⟨kind, both⟩
      cases kind
      · exact .inl both
      · exact .inr both
    · rintro (both | both)
      · exact ⟨.read, both⟩
      · exact ⟨.write, both⟩
  rw [kinds_iff]
  rcases mask with (_ | _) | _ <;> rcases ioKinds_cases kinds with rfl | rfl | rfl | rfl <;> decide

theorem ioevMask_joined : ioevMask kinds ||| mask.type = ioevMask (mask.joined kinds) := by
  rcases mask with (_ | _) | _ <;> rcases ioKinds_cases kinds with rfl | rfl | rfl | rfl <;> decide

theorem ioevMask_without : ioevMask kinds &&& ~~~mask.type = ioevMask (mask.without kinds) := by
  rcases mask with (_ | _) | _ <;> rcases ioKinds_cases kinds with rfl | rfl | rfl | rfl <;> decide

theorem epollFlags_eq_zero : epollFlags (ioevMask kinds) = 0 ↔ ioevMask kinds = 0 := by
  rcases ioKinds_cases kinds with rfl | rfl | rfl | rfl <;> decide

theorem epollFlags_joined : epollFlags (ioevMask kinds) ||| epollFlags mask.type = epollFlags
    (ioevMask (mask.joined kinds)) := by
  rcases mask with (_ | _) | _ <;> rcases ioKinds_cases kinds with rfl | rfl | rfl | rfl <;> decide

theorem epollFlags_without : epollFlags (ioevMask kinds) &&& ~~~epollFlags mask.type = epollFlags
    (ioevMask (mask.without kinds)) := by
  rcases mask with (_ | _) | _ <;> rcases ioKinds_cases kinds with rfl | rfl | rfl | rfl <;> decide

theorem kernelEntry_joined :
    kernelEntry (mask.joined kinds) = some (epollFlags (ioevMask (mask.joined kinds))) := by
  have some : ioevMask (mask.joined kinds) ≠ 0 := by
    rcases mask with (_ | _) | _ <;> rcases ioKinds_cases kinds with rfl | rfl | rfl |
        rfl <;> decide
  rw [kernelEntry, if_neg some]

/-- Events that are all registered are removed with `EPOLL_CTL_DEL` exactly when no other is. -/
theorem epollFlags_eq_iff (there : ∀ kind, mask.has kind = true → kinds kind = true) :
    epollFlags (ioevMask kinds) = epollFlags mask.type ↔ ioevMask (mask.without kinds) = 0 := by
  have read := there .read
  have write := there .write
  revert read write
  rcases mask with (_ | _) | _ <;> rcases ioKinds_cases kinds with rfl | rfl | rfl | rfl <;> decide

end Masks

section Put

variable {wanted : Bool} {saved : Nat → Bool} {fd : Nat}

theorem fdPut_true (free : wanted = true → saved fd = false) :
    fdPut wanted saved fd true = some (Function.update saved fd (saved fd || wanted)) := by
  cases wanted
  · simp [fdPut]
  · simp [fdPut, free rfl]

theorem fdPut_false (there : wanted = true → saved fd = true) :
    fdPut wanted saved fd false = some (Function.update saved fd (saved fd && !wanted)) := by
  cases wanted
  · simp [fdPut]
  · simp [fdPut, there rfl]

theorem fdPut_none {value : Bool} (wants : wanted = true) (already : saved fd = value) :
    fdPut wanted saved fd value = none := by
  simp [fdPut, wants, already]

end Put

namespace FkSelect

variable {iompx : FkSelect} {fd : Nat} {mask : IoMask}

/-- The events of one descriptor and the bookkeeping are replaced. -/
def put (iompx : FkSelect) (fd : Nat) (kinds : IoKind → Bool) (maxFd : Int) (fdMap : Nat → UInt8) :
    FkSelect where
  maxFiles := iompx.maxFiles
  savedRset := Function.update iompx.savedRset fd (kinds .read)
  savedWset := Function.update iompx.savedWset fd (kinds .write)
  maxFd := maxFd
  fdMap := fdMap

theorem registered_put (kinds : IoKind → Bool) (maxFd : Int) (fdMap : Nat → UInt8) :
    (iompx.put fd kinds maxFd fdMap).registered = Function.update iompx.registered fd kinds := by
  funext other
  by_cases same : other = fd
  · subst same
    apply ioKinds_ext <;> simp [registered, put]
  · apply ioKinds_ext <;> simp [registered, put, same]

theorem fkSelectAdd_ok (inside : fd < iompx.maxFiles)
    (free : ∀ kind, mask.has kind = true → iompx.registered fd kind = false) :
    ∃ next, iompx.fkSelectAdd fd mask.type = some (.ok, next) ∧ next.maxFiles = iompx.maxFiles ∧
      next.registered = Function.update iompx.registered fd (mask.joined (iompx.registered fd)) ∧
      next.maxFd = max (fd : Int) iompx.maxFd ∧ next.fdMap = Function.update iompx.fdMap fd 1 := by
  refine ⟨iompx.put fd (mask.joined (iompx.registered fd)) (max fd iompx.maxFd)
    (Function.update iompx.fdMap fd 1), ?_, rfl, registered_put _ _ _, rfl, rfl⟩
  rw [fkSelectAdd, if_pos inside, wantsRead_type, wantsWrite_type, fdPut_true (free .read),
    fdPut_true (free .write)]
  simp only [mask_some, if_true, put, IoMask.joined, registered]
  congr 3
  omega

/-- An addition of something registered fails; only the read event of both can have been put. -/
theorem fkSelectAdd_err (inside : fd < iompx.maxFiles)
    (taken : ∃ kind, mask.has kind = true ∧ iompx.registered fd kind = true) :
    ∃ next, iompx.fkSelectAdd fd mask.type = some (.err, next) ∧
      if mask = .both ∧ iompx.savedRset fd = false ∧ iompx.savedWset fd = true then
        next.registered ≠ iompx.registered
      else next = iompx := by
  rw [fkSelectAdd, if_pos inside, wantsRead_type, wantsWrite_type]
  by_cases read : mask.has .read = true ∧ iompx.savedRset fd = true
  · refine ⟨iompx, by rw [fdPut_none read.1 read.2], ?_⟩
    simp [read.2]
  · have free : mask.has .read = true → iompx.savedRset fd = false := by
      intro has
      exact Bool.eq_false_iff.mpr fun already => read ⟨has, already⟩
    obtain ⟨kind, has, already⟩ := taken
    cases kind with
    | read => exact absurd ⟨has, already⟩ read
    | write =>
        refine ⟨{ iompx with
            savedRset :=
              Function.update iompx.savedRset fd (iompx.savedRset fd || mask.has .read) }, ?_, ?_⟩
        · rw [fdPut_true free]
          simp only [fdPut_none has already]
        · split
          case isTrue plain =>
            obtain ⟨both, unread, _⟩ := plain
            intro same
            have moved := congrFun (congrFun same fd) .read
            simp [registered, unread, both, IoMask.has] at moved
          case isFalse other =>
            by_cases wants : mask.has .read = true
            · have both := (mask_both mask).mp (by simp [wants, has])
              exact absurd ⟨both, free wants, already⟩ other
            · simp [wants]

theorem fkSelectRemove_ok (inside : fd < iompx.maxFiles)
    (there : ∀ kind, mask.has kind = true → iompx.registered fd kind = true) :
    ∃ next, iompx.fkSelectRemove fd mask.type = some (.ok, next) ∧ next.maxFiles = iompx.maxFiles ∧
      next.registered = Function.update iompx.registered fd (mask.without (iompx.registered fd)) ∧
      next.fdMap = (if mask = .both then Function.update iompx.fdMap fd 0 else iompx.fdMap) ∧
      next.maxFd = if (fd : Int) = iompx.maxFd ∧
        next.fdMap fd = 0 then searchMaxFd next.fdMap (fd + 1) else iompx.maxFd := by
  let fdMap := if mask = .both then Function.update iompx.fdMap fd 0 else iompx.fdMap
  let maxFd :=
    if (fd : Int) = iompx.maxFd ∧ fdMap fd = 0 then searchMaxFd fdMap (fd + 1) else iompx.maxFd
  refine ⟨iompx.put fd (mask.without (iompx.registered fd)) maxFd fdMap, ?_, rfl,
    registered_put _ _ _, rfl, rfl⟩
  rw [fkSelectRemove, if_pos inside, wantsRead_type, wantsWrite_type, fdPut_false (there .read),
    fdPut_false (there .write)]
  simp only [mask_both, put, fdMap, maxFd, IoMask.without, registered]

/-- A removal of something that is not registered fails; only the read event of both can have
gone. -/
theorem fkSelectRemove_err (inside : fd < iompx.maxFiles)
    (missing : ∃ kind, mask.has kind = true ∧ iompx.registered fd kind = false) :
    ∃ next, iompx.fkSelectRemove fd mask.type = some (.err, next) ∧
      (¬(mask = .both ∧ iompx.savedRset fd = true ∧ iompx.savedWset fd = false) →
        next = iompx) := by
  rw [fkSelectRemove, if_pos inside, wantsRead_type, wantsWrite_type]
  by_cases read : mask.has .read = true ∧ iompx.savedRset fd = false
  · exact ⟨iompx, by rw [fdPut_none read.1 read.2], fun _ => rfl⟩
  · have there : mask.has .read = true → iompx.savedRset fd = true := by
      intro has
      by_contra absent
      exact read ⟨has, Bool.eq_false_iff.mpr absent⟩
    obtain ⟨kind, has, absent⟩ := missing
    cases kind with
    | read => exact absurd ⟨has, absent⟩ read
    | write =>
        refine ⟨{ iompx with
            savedRset :=
              Function.update iompx.savedRset fd (iompx.savedRset fd && !mask.has .read) }, ?_, ?_⟩
        · rw [fdPut_false there]
          simp only [fdPut_none has absent]
        · intro other
          by_cases wants : mask.has .read = true
          · have both := (mask_both mask).mp (by simp [wants, has])
            exact absurd ⟨both, there wants, absent⟩ other
          · simp [wants]

/-- The search finds the largest marked descriptor below the bound. -/
theorem searchMaxFd_spec (fdMap : Nat → UInt8) (bound : Nat) :
    (∀ fd < bound, fdMap fd = 1 → (fd : Int) ≤ searchMaxFd fdMap bound) ∧
      (searchMaxFd fdMap bound = -1 ∨ ∃ fd < bound, searchMaxFd fdMap bound = (fd : Nat) ∧
        fdMap fd = 1) := by
  induction bound with
  | zero => exact ⟨nofun, .inl rfl⟩
  | succ bound ih =>
      rw [searchMaxFd]
      split
      case isTrue marked => exact ⟨fun fd below _ => by omega, .inr ⟨bound, by omega, rfl, marked⟩⟩
      case isFalse unmarked =>
        obtain ⟨bounds, found⟩ := ih
        constructor
        · intro fd below marked
          rcases Nat.lt_succ_iff_lt_or_eq.mp below with below | rfl
          · exact bounds fd below marked
          · exact absurd marked unmarked
        · rcases found with none | ⟨fd, below, isFd, marked⟩
          · exact .inl none
          · exact .inr ⟨fd, by omega, isFd, marked⟩

end FkSelect

namespace FkEpoll

variable {iompx : FkEpoll} {fd : Nat} {mask : IoMask} {kinds : IoKind → Bool}

theorem fkEpollAdd_err (inside : fd < iompx.maxEvs) (masked : iompx.emask fd = ioevMask kinds)
    (taken : ∃ kind, mask.has kind = true ∧ kinds kind = true) :
    iompx.fkEpollAdd fd mask.type = some (.err, iompx) := by
  have meets := (type_and_ioevMask mask kinds).mpr taken
  rw [fkEpollAdd, if_pos inside, masked]
  dsimp only
  rw [if_pos meets]

theorem fkEpollAdd_ok (inside : fd < iompx.maxEvs) (masked : iompx.emask fd = ioevMask kinds)
    (known : iompx.kernel fd = kernelEntry kinds)
    (free : ∀ kind, mask.has kind = true → kinds kind = false) :
    ∃ next, iompx.fkEpollAdd fd mask.type = some (.ok, next) ∧ next.maxEvs = iompx.maxEvs ∧
      next.emask = Function.update iompx.emask fd (ioevMask (mask.joined kinds)) ∧
      next.kernel = Function.update iompx.kernel fd (kernelEntry (mask.joined kinds)) := by
  have apart : ¬mask.type &&& ioevMask kinds ≠ 0 := by
    intro meets
    obtain ⟨kind, has, already⟩ := (type_and_ioevMask mask kinds).mp meets
    simp [free kind has] at already
  have told : epollCtl iompx.kernel
      (if epollFlags (ioevMask kinds) = 0 then EpollOp.ctlAdd else .ctlMod) fd
      (epollFlags (ioevMask kinds) ||| epollFlags mask.type) =
      some (Function.update iompx.kernel fd (kernelEntry (mask.joined kinds))) := by
    rw [epollFlags_joined, kernelEntry_joined]
    by_cases none : ioevMask kinds = 0
    · rw [if_pos ((epollFlags_eq_zero kinds).mpr none)]
      simp [epollCtl, known, kernelEntry, none]
    · rw [if_neg (mt (epollFlags_eq_zero kinds).mp none)]
      simp [epollCtl, known, kernelEntry, none]
  refine ⟨⟨iompx.maxEvs, Function.update iompx.emask fd (ioevMask (mask.joined kinds)),
    Function.update iompx.kernel fd (kernelEntry (mask.joined kinds))⟩, ?_, rfl, rfl, rfl⟩
  rw [fkEpollAdd, if_pos inside, masked]
  dsimp only
  rw [if_neg apart, told, ioevMask_joined]

theorem fkEpollRemove_err (inside : fd < iompx.maxEvs) (masked : iompx.emask fd = ioevMask kinds)
    (missing : ∀ kind, mask.has kind = true → kinds kind = false) :
    iompx.fkEpollRemove fd mask.type = some (.err, iompx) := by
  have apart : ¬mask.type &&& ioevMask kinds ≠ 0 := by
    intro meets
    obtain ⟨kind, has, already⟩ := (type_and_ioevMask mask kinds).mp meets
    simp [missing kind has] at already
  rw [fkEpollRemove, if_pos inside, masked]
  dsimp only
  rw [if_pos apart]

/-- One registered event is enough for a removal to succeed. -/
theorem fkEpollRemove_ok (inside : fd < iompx.maxEvs) (masked : iompx.emask fd = ioevMask kinds)
    (known : iompx.kernel fd = kernelEntry kinds)
    (meets : ∃ kind, mask.has kind = true ∧ kinds kind = true) :
    ∃ next, iompx.fkEpollRemove fd mask.type = some (.ok, next) ∧ next.maxEvs = iompx.maxEvs ∧
      next.emask = Function.update iompx.emask fd (ioevMask (mask.without kinds)) ∧
      ((∀ kind, mask.has kind = true → kinds kind = true) →
        next.kernel = Function.update iompx.kernel fd (kernelEntry (mask.without kinds))) := by
  have overlap := (type_and_ioevMask mask kinds).mpr meets
  have some : ioevMask kinds ≠ 0 := by
    intro none
    simp [none] at overlap
  rw [fkEpollRemove, if_pos inside, masked]
  dsimp only
  rw [if_neg (not_not_intro overlap), epollFlags_without, ioevMask_without]
  by_cases last : epollFlags (ioevMask kinds) = epollFlags mask.type
  · refine ⟨⟨iompx.maxEvs, Function.update iompx.emask fd (ioevMask (mask.without kinds)),
      Function.update iompx.kernel fd none⟩, ?_, rfl, rfl, ?_⟩
    · simp [last, epollCtl, known, kernelEntry, some]
    · intro there
      simp [kernelEntry, (epollFlags_eq_iff mask kinds there).mp last]
  · refine ⟨⟨iompx.maxEvs, Function.update iompx.emask fd (ioevMask (mask.without kinds)),
      Function.update iompx.kernel fd (Option.some (epollFlags (ioevMask (mask.without kinds))))⟩,
      ?_, rfl, rfl, ?_⟩
    · simp [last, epollCtl, known, kernelEntry, some]
    · intro there
      simp [kernelEntry, mt (epollFlags_eq_iff mask kinds there).mpr last]

end FkEpoll

end Freekick
