import Mathlib.Data.Finset.Card
import Freekick.Event.Evmgr
import Freekick.Lib.Steps

/-!
# The backend with `poll`: `fk_ev_poll.c`

Descriptors that are watched have a slot in an array, and a table tells the index of the slot.
An index outside of the arrays is a fault.
-/

namespace Freekick

open Lib

/-- `POLLIN` and `POLLOUT`. -/
def pollin : UInt16 := 0x001
def pollout : UInt16 := 0x004

/-- `struct pollfd`. -/
structure Pollfd where
  fd : Int
  events : UInt16
  revents : UInt16
  deriving DecidableEq, Repr

/-- A slot that is not used. -/
def Pollfd.empty : Pollfd := ⟨-1, 0, 0⟩

/-- `fk_poll_t`; both arrays have `maxFiles` places. -/
structure FkPoll where
  maxFiles : Nat
  evlist : Nat → Pollfd
  last : Nat
  fd2idx : Nat → Int

def fkPollCreate (maxFiles : Nat) : FkPoll where
  maxFiles := maxFiles
  evlist := fun _ => .empty
  last := 0
  fd2idx := fun _ => -1

/-- The flags of `poll` for an event type. -/
def pollFlags (type : UInt8) : UInt16 :=
  (if type &&& fkIoevRead ≠ 0 then pollin else 0) ||| (if type &&& fkIoevWrite ≠ 0 then
    pollout else 0)

namespace FkPoll

/-- An index that is inside of the array. -/
def slot? (poll : FkPoll) (idx : Int) : Option Nat :=
  if 0 ≤ idx ∧ idx < poll.maxFiles then some idx.toNat else none

def fkPollAdd (poll : FkPoll) (fd : Nat) (type : UInt8) : Option (FkEvRt × FkPoll) := do
  let place ← poll.slot? fd
  let idx := if poll.fd2idx place = -1 then (poll.last : Int) else poll.fd2idx place
  let index ← poll.slot? idx
  let oev := (poll.evlist index).events
  let nev := pollFlags type
  if oev &&& nev ≠ 0 then some (.err, poll)
  else
    some (.ok, { poll with
      evlist := Function.update poll.evlist index
        { poll.evlist index with events := oev ||| nev, fd := fd }
      fd2idx := Function.update poll.fd2idx place idx
      last := if index = poll.last then poll.last + 1 else poll.last })

/-- The tail takes the place of a slot without events; nothing is written to `fd2idx`. -/
def fkPollRemove (poll : FkPoll) (fd : Nat) (type : UInt8) : Option (FkEvRt × FkPoll) := do
  let place ← poll.slot? fd
  let index ← poll.slot? (poll.fd2idx place)
  let oev := (poll.evlist index).events
  let nev := pollFlags type
  if nev &&& ~~~oev ≠ 0 then some (.err, poll)
  else
    let evlist := Function.update poll.evlist index
      { poll.evlist index with events := oev &&& ~~~nev }
    if oev &&& ~~~nev = 0 then do
      let tail ← poll.slot? (poll.last - 1 : Int)
      some (.ok, { poll with
        evlist := Function.update (Function.update evlist index (evlist tail)) tail .empty
        last := poll.last - 1 })
    else some (.ok, { poll with evlist := evlist })

end FkPoll

/-! ## Calls of the event manager -/

/-- The two kinds of events. -/
inductive IoKind where
  | read
  | write
  deriving DecidableEq, Repr

def IoKind.type : IoKind → UInt8
  | .read => fkIoevRead
  | .write => fkIoevWrite

def IoKind.other : IoKind → IoKind
  | .read => .write
  | .write => .read

inductive MpxCall where
  | add (fd : Nat) (kind : IoKind)
  | remove (fd : Nat) (kind : IoKind)
  deriving DecidableEq, Repr

/-- Which kinds of which descriptors are registered. -/
abbrev IoRegistered := Nat → IoKind → Bool

namespace MpxCall

variable (registered : IoRegistered)

/-- `fk_ev_add_ioev` and `fk_ev_remove_ioev` add what is not registered and remove what is. -/
def Admitted (maxFiles : Nat) : MpxCall → Prop
  | .add fd kind => fd < maxFiles ∧ registered fd kind = false
  | .remove fd kind => fd < maxFiles ∧ registered fd kind = true

instance decidableAdmitted (maxFiles : Nat) : ∀ call, Decidable (Admitted registered maxFiles call)
  | .add _ _ => inferInstanceAs (Decidable (_ ∧ _))
  | .remove _ _ => inferInstanceAs (Decidable (_ ∧ _))

/-- What is registered after a call that succeeds. -/
def after : MpxCall → IoRegistered
  | .add fd kind => Function.update registered fd (Function.update (registered fd) kind true)
  | .remove fd kind => Function.update registered fd (Function.update (registered fd) kind false)

/-- The descriptor keeps an event. -/
def Spares : MpxCall → Prop
  | .add _ _ => True
  | .remove fd kind => registered fd kind.other = true

instance decidableSpares : ∀ call, Decidable (Spares registered call)
  | .add _ _ => inferInstanceAs (Decidable True)
  | .remove _ _ => inferInstanceAs (Decidable (_ = _))

end MpxCall

/-- The backend and what the event manager has registered there. -/
structure Polling where
  poll : FkPoll
  registered : IoRegistered

def pollingInit (maxFiles : Nat) : Polling := ⟨fkPollCreate maxFiles, fun _ _ => false⟩

namespace Polling

def answer (polling : Polling) : MpxCall → Option (FkEvRt × FkPoll)
  | .add fd kind => polling.poll.fkPollAdd fd kind.type
  | .remove fd kind => polling.poll.fkPollRemove fd kind.type

/-- An admitted call; what is registered changes when it succeeds. -/
def step (polling : Polling) (call : MpxCall) : Option Polling :=
  if call.Admitted polling.registered polling.poll.maxFiles then
    match polling.answer call with
    | some (.ok, poll) => some ⟨poll, call.after polling.registered⟩
    | some (.err, poll) => some ⟨poll, polling.registered⟩
    | none => none
  else none

end Polling

/-! ## The table of descriptors -/

/-- The flags of what is registered. -/
def pollEvents (kinds : IoKind → Bool) : UInt16 :=
  (if kinds .read then pollin else 0) ||| (if kinds .write then pollout else 0)

section Flags

variable (kinds : IoKind → Bool) (kind : IoKind)

theorem pollEvents_add (new : kinds kind = false) :
    pollEvents kinds &&& pollFlags kind.type = 0 ∧
      pollEvents kinds ||| pollFlags kind.type = pollEvents (Function.update kinds kind true) := by
  cases kind <;> simp only [pollEvents, new, Function.update] <;> cases kinds .read <;>
    cases kinds .write <;> decide

theorem pollEvents_remove (registered : kinds kind = true) :
    pollFlags kind.type &&& ~~~pollEvents kinds = 0 ∧
      pollEvents kinds &&& ~~~pollFlags kind.type = pollEvents (Function.update kinds kind false) ∧
      (pollEvents kinds &&& ~~~pollFlags kind.type = 0 ↔ kinds kind.other = false) := by
  cases kind <;> simp only [pollEvents, registered, Function.update, IoKind.other] <;>
    cases kinds .read <;> cases kinds .write <;> decide

end Flags

/-- Descriptors with registered kinds have exactly one slot each, and their index is known. -/
structure FkPoll.Tidy (poll : FkPoll) (registered : IoRegistered) : Prop where
  slots : ∀ fd, registered fd ≠ (fun _ => false) → ∃ index < poll.last,
    (poll.evlist index).fd = fd ∧ (poll.evlist index).events = pollEvents (registered fd) ∧
    poll.fd2idx fd = index ∧ ∀ other < poll.last, (poll.evlist other).fd = fd → other = index
  owned : ∀ index < poll.last, ∃ fd < poll.maxFiles, (poll.evlist index).fd = (fd : Nat) ∧
    registered fd ≠ fun _ => false
  empty : ∀ index, poll.last ≤ index → poll.evlist index = .empty
  absent : ∀ fd, registered fd = (fun _ => false) → poll.fd2idx fd = -1

namespace FkPoll.Tidy

variable {poll : FkPoll} {registered : IoRegistered} {fd : Nat} {kind : IoKind}

/-- Slots have different descriptors. -/
theorem slot_eq (tidy : poll.Tidy registered) {first second : Nat} (inside : first < poll.last)
    (also : second < poll.last) (same : (poll.evlist first).fd = (poll.evlist second).fd) :
    first = second := by
  obtain ⟨fd, _, isFd, some⟩ := tidy.owned first inside
  obtain ⟨index, _, _, _, _, unique⟩ := tidy.slots fd some
  rw [unique first inside isFd, unique second also (same.symm.trans isFd)]

theorem descriptors_injOn (tidy : poll.Tidy registered) :
    Set.InjOn (fun index => (poll.evlist index).fd.toNat) (Finset.range poll.last) := by
  intro first member second also same
  have inside := Finset.mem_range.mp (Finset.mem_coe.mp member)
  have within := Finset.mem_range.mp (Finset.mem_coe.mp also)
  obtain ⟨_, _, isFirst, _⟩ := tidy.owned first inside
  obtain ⟨_, _, isSecond, _⟩ := tidy.owned second within
  apply tidy.slot_eq inside within
  dsimp only at same
  omega

/-- There are at most as many slots as there are descriptors that may own one. -/
theorem last_le_card (tidy : poll.Tidy registered) {owners : Finset Nat}
    (owns : ∀ fd < poll.maxFiles, (registered fd ≠ fun _ => false) → fd ∈ owners) :
    poll.last ≤ owners.card := by
  have maps : ∀ index ∈ Finset.range poll.last, (poll.evlist index).fd.toNat ∈ owners := by
    intro index member
    obtain ⟨fd, inside, isFd, some⟩ := tidy.owned index (Finset.mem_range.mp member)
    rw [isFd, Int.toNat_natCast]
    exact owns fd inside some
  have counted := Finset.card_le_card_of_injOn _ maps tidy.descriptors_injOn
  rwa [Finset.card_range] at counted

/-- There is room for a descriptor that is not registered. -/
theorem last_lt (tidy : poll.Tidy registered) (below : fd < poll.maxFiles)
    (absent : registered fd = fun _ => false) :
    poll.last < poll.maxFiles := by
  have counted := @last_le_card poll registered tidy ((Finset.range poll.maxFiles).erase fd)
    fun other inside some => by
    apply Finset.mem_erase.mpr
    refine ⟨?_, Finset.mem_range.mpr inside⟩
    rintro rfl
    exact some absent
  rw [Finset.card_erase_of_mem (Finset.mem_range.mpr below), Finset.card_range] at counted
  omega

theorem last_le (tidy : poll.Tidy registered) : poll.last ≤ poll.maxFiles := by
  have counted := @last_le_card poll registered tidy (Finset.range poll.maxFiles) fun _ inside _ =>
    Finset.mem_range.mpr inside
  rwa [Finset.card_range] at counted

theorem init (maxFiles : Nat) : (fkPollCreate maxFiles).Tidy fun _ _ => false where
  slots _ some := absurd rfl some
  owned index inside := absurd inside (Nat.not_lt_zero index)
  empty _ _ := rfl
  absent _ _ := rfl

/-- The events of a slot change and its descriptor keeps some. -/
theorem change (tidy : poll.Tidy registered) {index : Nat} (inside : index < poll.last)
    (isFd : (poll.evlist index).fd = fd) (value : Bool)
    (keeps : Function.update (registered fd) kind value ≠ fun _ => false)
    (indexed : poll.fd2idx fd = index) :
    ({ poll with
      evlist := Function.update poll.evlist index
        { poll.evlist index with
          events := pollEvents (Function.update (registered fd) kind value) } } : FkPoll).Tidy
      (Function.update registered fd (Function.update (registered fd) kind value)) := by
  have fds : ∀ other, (Function.update poll.evlist index { poll.evlist index with
      events := pollEvents (Function.update (registered fd) kind value) } other).fd =
      (poll.evlist other).fd := by
    intro other
    by_cases same : other = index
    · subst same
      simp
    · simp [same]
  constructor
  · intro other some
    by_cases same : other = fd
    · subst same
      refine ⟨index, inside, by rw [fds, isFd], by simp, indexed, ?_⟩
      intro second also isSecond
      rw [fds] at isSecond
      exact tidy.slot_eq also inside (isSecond.trans isFd.symm)
    · rw [Function.update_of_ne same] at some ⊢
      obtain ⟨place, below, isOther, events, found, unique⟩ := tidy.slots other some
      have apart : place ≠ index := by
        rintro rfl
        exact same (by exact_mod_cast isOther.symm.trans isFd)
      refine ⟨place, below, by rw [fds, isOther], by simp [apart, events], found, ?_⟩
      intro second also isSecond
      rw [fds] at isSecond
      exact unique second also isSecond
  · intro other below
    obtain ⟨owner, bounded, isOwner, some⟩ := tidy.owned other below
    refine ⟨owner, bounded, by rw [fds, isOwner], ?_⟩
    by_cases same : owner = fd
    · subst same
      simpa using keeps
    · simpa [same] using some
  · intro other beyond
    have apart : other ≠ index := by
      rintro rfl
      exact absurd inside (Nat.not_lt.mpr beyond)
    simp [apart, tidy.empty other beyond]
  · intro other none
    by_cases same : other = fd
    · subst same
      simp [keeps] at none
    · exact tidy.absent other (by simpa [same] using none)

/-- A descriptor without events gets the slot at the end. -/
theorem push (tidy : poll.Tidy registered) (below : fd < poll.maxFiles)
    (absent : registered fd = fun _ => false)
    (keeps : Function.update (registered fd) kind true ≠ fun _ => false) :
    ({ poll with
      evlist := Function.update poll.evlist poll.last
        ⟨fd, pollEvents (Function.update (registered fd) kind true), 0⟩
      fd2idx := Function.update poll.fd2idx fd poll.last
      last := poll.last + 1 } : FkPoll).Tidy
      (Function.update registered fd (Function.update (registered fd) kind true)) := by
  have elsewhere : ∀ index < poll.last, (poll.evlist index).fd ≠ fd := by
    intro index inside isFd
    obtain ⟨owner, _, isOwner, some⟩ := tidy.owned index inside
    obtain rfl : owner = fd := by exact_mod_cast isOwner.symm.trans isFd
    exact some absent
  constructor
  · intro other some
    by_cases same : other = fd
    · subst same
      refine ⟨poll.last, Nat.lt_succ_self _, by simp, by simp, by simp, ?_⟩
      intro second inside isSecond
      by_contra apart
      have before : second < poll.last := by
        dsimp only at inside
        omega
      simp only [Function.update_of_ne apart] at isSecond
      exact elsewhere second before isSecond
    · rw [Function.update_of_ne same] at some ⊢
      obtain ⟨place, inside, isOther, events, found, unique⟩ := tidy.slots other some
      have apart : place ≠ poll.last := Nat.ne_of_lt inside
      refine ⟨place, Nat.lt_succ_of_lt inside, by
        simp [apart, isOther], by simp [apart, events], by simp [same, found], ?_⟩
      intro second within isSecond
      by_cases last : second = poll.last
      · subst last
        simp only [Function.update_self, Nat.cast_inj] at isSecond
        exact absurd isSecond.symm same
      · simp only [Function.update_of_ne last] at isSecond
        apply unique second _ isSecond
        dsimp only at within
        omega
  · intro index inside
    by_cases last : index = poll.last
    · subst last
      exact ⟨fd, below, by simp, by simpa using keeps⟩
    · have before : index < poll.last := by
        dsimp only at inside
        omega
      obtain ⟨owner, bounded, isOwner, some⟩ := tidy.owned index before
      have apart : owner ≠ fd := by
        rintro rfl
        exact some absent
      exact ⟨owner, bounded, by simp [last, isOwner], by simpa [apart] using some⟩
  · intro index beyond
    dsimp only at beyond
    have apart : index ≠ poll.last := by omega
    simp [apart, tidy.empty index (by omega)]
  · intro other none
    by_cases same : other = fd
    · subst same
      simp [keeps] at none
    · simpa [same] using tidy.absent other (by simpa [same] using none)

end FkPoll.Tidy

/-! ## One call -/

namespace Polling

variable {polling : Polling} {fd : Nat} {kind : IoKind}

/-- A call succeeds and the table is right for what is registered then. -/
def Kept (polling : Polling) (call : MpxCall) : Prop :=
  call.Admitted polling.registered polling.poll.maxFiles →
    ∃ next, polling.answer call = some (.ok, next) ∧ next.Tidy (call.after polling.registered)

/-- The call does not take the last event of its descriptor. -/
def Spared (polling : Polling) (call : MpxCall) : Prop :=
  call.Admitted polling.registered polling.poll.maxFiles → call.Spares polling.registered

instance decidableSpared (polling : Polling) (call : MpxCall) : Decidable (Spared polling call) :=
  inferInstanceAs (Decidable (_ → _))

theorem slot?_of_lt {poll : FkPoll} {index : Nat} (inside : index < poll.maxFiles) :
    poll.slot? index = some index := by
  simp [FkPoll.slot?, inside]

theorem update_ne_none (kinds : IoKind → Bool) (kind : IoKind) :
    Function.update kinds kind true ≠ fun _ => false := by
  intro none
  have same := congrFun none kind
  simp at same

theorem add_kept (tidy : polling.poll.Tidy polling.registered) : polling.Kept (.add fd kind) := by
  rintro ⟨below, new⟩
  have keeps := update_ne_none (polling.registered fd) kind
  by_cases absent : polling.registered fd = fun _ => false
  · have room := tidy.last_lt below absent
    refine ⟨_, ?_, tidy.push below absent keeps⟩
    have flags : pollEvents (Function.update (polling.registered fd) kind true) =
        pollFlags kind.type := by
      rw [absent, ← (pollEvents_add (fun _ => false) kind rfl).2]
      simp [pollEvents]
    simp [answer, FkPoll.fkPollAdd, slot?_of_lt below, tidy.absent fd absent,
      slot?_of_lt room, flags, tidy.empty polling.poll.last le_rfl, Pollfd.empty]
  · obtain ⟨index, inside, isFd, events, indexed, _⟩ := tidy.slots fd absent
    obtain ⟨apart, joined⟩ := pollEvents_add (polling.registered fd) kind new
    refine ⟨_, ?_, tidy.change inside isFd true keeps indexed⟩
    have known : (index : Int) ≠ -1 := by omega
    have unmoved : Function.update polling.poll.fd2idx fd (index : Int) = polling.poll.fd2idx := by
      rw [← indexed, Function.update_eq_self]
    simp [answer, FkPoll.fkPollAdd, slot?_of_lt below, indexed, known,
      slot?_of_lt (Nat.lt_of_lt_of_le inside tidy.last_le),
      events, apart, joined, unmoved, Nat.ne_of_lt inside, isFd]

/-- A descriptor that loses its last event keeps its index. -/
theorem remove_kept_iff (tidy : polling.poll.Tidy polling.registered)
    (admitted : (MpxCall.remove fd kind).Admitted polling.registered polling.poll.maxFiles) :
    (∃ next, polling.answer (.remove fd kind) = some (.ok, next) ∧
      next.Tidy ((MpxCall.remove fd kind).after polling.registered)) ↔
      polling.registered fd kind.other = true := by
  obtain ⟨below, registered⟩ := admitted
  have some : polling.registered fd ≠ fun _ => false := by
    intro none
    simp [none] at registered
  obtain ⟨index, inside, isFd, events, indexed, _⟩ := tidy.slots fd some
  obtain ⟨subset, left, last⟩ := pollEvents_remove (polling.registered fd) kind registered
  have place := slot?_of_lt below
  have slot := slot?_of_lt (Nat.lt_of_lt_of_le inside tidy.last_le)
  constructor
  · rintro ⟨next, answered, tidyNext⟩
    by_contra none
    have emptied := last.mpr (Bool.eq_false_iff.mpr none)
    have tail : polling.poll.slot? (polling.poll.last - 1 : Int) = Option.some
        (polling.poll.last - 1) := by
      have bounded := tidy.last_le
      have bounds : 0 ≤ (polling.poll.last - 1 : Int) ∧
          (polling.poll.last - 1 : Int) < polling.poll.maxFiles := by omega
      simp only [FkPoll.slot?, bounds, and_self, if_true, Option.some_inj]
      omega
    simp [answer, FkPoll.fkPollRemove, place, indexed, slot, events, subset, emptied,
      tail] at answered
    have gone : Function.update (polling.registered fd) kind false = fun _ => false := by
      funext other
      cases kind <;> cases other <;> simp_all [IoKind.other]
    have reset := tidyNext.absent fd (by simp [MpxCall.after, gone])
    subst answered
    simp only [indexed] at reset
    omega
  · intro other
    have remains : pollEvents (polling.registered fd) &&& ~~~pollFlags kind.type ≠ 0 := by
      intro emptied
      simp [last.mp emptied] at other
    have keeps : Function.update (polling.registered fd) kind false ≠ fun _ => false := by
      intro none
      apply remains
      rw [left, none]
      rfl
    refine ⟨_, ?_, tidy.change inside isFd false keeps indexed⟩
    simp [answer, FkPoll.fkPollRemove, place, indexed, slot, events, subset, remains, ← left]

theorem kept_iff_spared (tidy : polling.poll.Tidy polling.registered) (call : MpxCall) :
    polling.Kept call ↔ polling.Spared call := by
  cases call with
  | add fd kind => exact iff_of_true (add_kept tidy) fun _ => trivial
  | remove fd kind =>
      constructor
      · exact fun kept admitted => (remove_kept_iff tidy admitted).mp (kept admitted)
      · exact fun spared admitted => (remove_kept_iff tidy admitted).mpr (spared admitted)

theorem step_tidy {call : MpxCall} {next : Polling} (tidy : polling.poll.Tidy polling.registered)
    (spared : polling.Spared call) (stepped : polling.step call = some next) :
    next.poll.Tidy next.registered := by
  unfold step at stepped
  split at stepped
  case isTrue admitted =>
    obtain ⟨poll, answered, kept⟩ := (kept_iff_spared tidy call).mpr spared admitted
    rw [answered] at stepped
    cases stepped
    exact kept
  case isFalse => cases stepped

/-- Every call of a run leaves a right table exactly when none of them takes the last event of a
descriptor. -/
theorem run_kept_iff (maxFiles : Nat) (calls : List MpxCall) :
    Steps.Throughout step Kept (pollingInit maxFiles) calls ↔
      Steps.Throughout step Spared (pollingInit maxFiles) calls :=
  @Steps.throughout_iff Polling MpxCall step Kept (pollingInit maxFiles) calls
    (fun polling => polling.poll.Tidy polling.registered) Spared
    (fun _ call tidy => kept_iff_spared tidy call) (fun _ _ _ => step_tidy) (.init maxFiles)

/-- Descriptor `4` has the tail, which moves when `3` goes; its own removal then looks at an empty
slot. -/
theorem run_loses_moved : ¬Steps.Throughout step Kept (pollingInit 8)
    [.add 3 .read, .add 4 .read, .remove 3 .read, .remove 4 .read] := by
  intro along
  have ran : (Steps.run step (pollingInit 8) [.add 3 .read, .add 4 .read, .remove 3 .read]).map
      (fun polling =>
        (decide ((MpxCall.remove 4 .read).Admitted polling.registered polling.poll.maxFiles),
          (polling.answer (.remove 4 .read)).map Prod.fst)) = some (true, some .err) :=
          by decide +kernel
  obtain ⟨polling, reached, facts⟩ := Option.map_eq_some_iff.mp ran
  obtain ⟨admitted, failed⟩ := Prod.mk.inj facts
  obtain ⟨next, answered, _⟩ := Steps.holds_of_throughout along reached (of_decide_eq_true admitted)
  simp [answered] at failed

end Polling

end Freekick
