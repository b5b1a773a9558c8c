import Freekick.Event.Evmgr

/-!
# States and containers of events

An event is in the tables, the heap or the lists exactly as its state says, and the counts
count the events that were added.  Every operation of the manager keeps this.
-/

namespace Freekick

open Lib Lib.Call

/-! ## What the heap contains -/

namespace FkHeap

variable {L : Type} [DecidableEq L] {hp : FkHeap L} {leaf : L}

theorem push_contains (leafCmp : L → L → Int) (wf : hp.Wf) (outside : ¬ hp.Contains leaf) :
    ∃ after, fkHeapPush leafCmp hp leaf = some after ∧ after.Wf ∧
      ∀ other, after.Contains other ↔ other = leaf ∨ hp.Contains other := by
  obtain ⟨after, _, pushed, kept⟩ :=
    push_some leafCmp wf (fun holds => outside (wf.holds_iff.mp holds))
  refine ⟨after, pushed, kept.wf, fun other => ?_⟩
  rw [← kept.wf.holds_iff, kept.holds, Holds, grown_idx, ← wf.holds_iff]
  by_cases same : other = leaf
  · rw [same, Function.update_self]
    exact iff_of_true (Nat.succ_ne_zero _) (.inl rfl)
  · rw [Function.update_of_ne same]
    exact (or_iff_right same).symm

theorem remove_contains (leafCmp : L → L → Int) (wf : hp.Wf) (inside : hp.Contains leaf) :
    ∃ after, fkHeapRemove leafCmp hp leaf = some after ∧ after.Wf ∧ after.last = hp.last - 1 ∧
      ∀ other, after.Contains other ↔ other ≠ leaf ∧ hp.Contains other := by
  have holds := wf.holds_iff.mpr inside
  obtain ⟨moved, after, atLast, _, removed, kept⟩ := remove_some leafCmp wf holds
  refine ⟨after, removed, kept.wf, kept.last, fun other => ?_⟩
  rw [← kept.wf.holds_iff, kept.holds, Holds, ← wf.holds_iff]
  by_cases same : other = leaf
  · rw [same, cut_idx_leaf]
    exact iff_of_false (fun nonzero => nonzero rfl) fun both => both.1 rfl
  · rw [and_iff_right same]
    by_cases isMoved : other = moved
    · obtain ⟨most, _⟩ := wf.placed leaf holds
      have least : 1 ≤ hp.idx leaf := Nat.one_le_iff_ne_zero.mpr holds
      have movedIdx := wf.idx_of_tree (Nat.le_trans least most) (Nat.le_refl _) atLast
      rw [isMoved, cut_idx_moved (isMoved ▸ same), Holds, movedIdx]
      exact iff_of_true holds (by omega)
    · rw [cut_idx_other same isMoved, Holds]

theorem pop_contains (leafCmp : L → L → Int) (wf : hp.Wf) (root : fkHeapRoot hp = some leaf) :
    hp.Contains leaf ∧ 1 ≤ hp.last ∧
      ∃ after, fkHeapPop leafCmp hp = some (some leaf, after) ∧ after.Wf ∧
      after.last = hp.last - 1 ∧ ∀ other, after.Contains other ↔ other ≠ leaf ∧
        hp.Contains other := by
  unfold fkHeapRoot at root
  split at root
  · cases root
  · next nonempty =>
      have least : 1 ≤ hp.last := Nat.one_le_iff_ne_zero.mpr nonempty
      have inside : hp.Contains leaf := ⟨1, Nat.le_refl 1, least, root⟩
      obtain ⟨after, removed, afterWf, last, contains⟩ := remove_contains leafCmp wf inside
      refine ⟨inside, least, after, ?_, afterWf, last, contains⟩
      rw [fkHeapPop, if_neg (by omega), root]
      change (fkHeapRemove leafCmp hp leaf).bind _ = _
      rw [removed]
      rfl

end FkHeap

/-! ## Agreement -/

variable {I T : Type} [DecidableEq I] [DecidableEq T]

def FkIoevT.added (ioev : FkIoevT) : Bool := ioev.stat ≠ .init

def FkIoevT.activated (ioev : FkIoevT) : Bool := ioev.stat = .activated

def FkTmevT.is (stat : FkTmevStat) (tmev : FkTmevT) : Bool := tmev.stat = stat

def FkTmevT.added (tmev : FkTmevT) : Bool := tmev.stat ≠ .init

/-- The table of a direction has every event of that type that was added, at its descriptor,
and nothing else. -/
def Registered (bit : UInt8) (table : Int → Option (Option I)) (ioevs : Objects I FkIoevT) : Prop :=
  ∀ fd key, table fd = some (some key) ↔
    ∃ ioev, ioevs.find key = some ioev ∧ ioev.added = true ∧ ioev.type &&& bit ≠ 0 ∧ ioev.fd = fd

namespace FkEvmgr

structure IoAgrees (mgr : FkEvmgr I T) : Prop where
  activated : Listed mgr.actIoev mgr.ioevs FkIoevT.activated
  read : Registered fkIoevRead mgr.readEv mgr.ioevs
  write : Registered fkIoevWrite mgr.writeEv mgr.ioevs
  cnt : mgr.ioevCnt = mgr.ioevs.count FkIoevT.added

structure TmAgrees (mgr : FkEvmgr I T) : Prop where
  heap : mgr.timerHeap.Wf
  pending : ∀ key, mgr.timerHeap.Contains key ↔
    (mgr.tmevs.find key).any (FkTmevT.is .pending) = true
  expired : Listed mgr.expTmev mgr.tmevs (FkTmevT.is .expired)
  old : Listed mgr.oldTmev mgr.tmevs (FkTmevT.is .old)
  cnt : mgr.tmevCnt = mgr.tmevs.count FkTmevT.added

/-- All states agree with all containers. -/
structure Agrees (mgr : FkEvmgr I T) : Prop where
  io : mgr.IoAgrees
  tm : mgr.TmAgrees

theorem fkEvInit_agrees : (fkEvInit : FkEvmgr I T).Agrees where
  io := ⟨.empty, fun _ _ => iff_of_false nofun nofun, fun _ _ => iff_of_false nofun nofun, rfl⟩
  tm := by
    refine ⟨fkHeapCreate_wf, fun key => iff_of_false ?_ Bool.false_ne_true, .empty, .empty, rfl⟩
    rintro ⟨i, least, most, _⟩
    change i ≤ 0 at most
    omega

end FkEvmgr

/-! ## Tables -/

section Tables

open FkEvmgr (slot)

variable {bit : UInt8} {table : Int → Option (Option I)} {ioevs : Objects I FkIoevT} {key : I}
  {ioev changed : FkIoevT}

theorem Registered.put_same (registered : Registered bit table ioevs)
    (found : ioevs.find key = some ioev) (added : changed.added = ioev.added)
    (type : changed.type = ioev.type) (fd : changed.fd = ioev.fd) :
    Registered bit table (ioevs.put key changed) := by
  intro wanted other
  rw [registered wanted other, Objects.find_put]
  by_cases same : other = key
  · rw [same, Function.update_self, found]
    simp only [Option.some.injEq, exists_eq_left', added, type, fd]
  · rw [Function.update_of_ne same]

/-- An event that was not added. -/
theorem Registered.put_free (registered : Registered bit table ioevs)
    (free : (ioevs.find key).any FkIoevT.added = false)
    (added : changed.added = false) : Registered bit table (ioevs.put key changed) := by
  intro wanted other
  rw [registered wanted other, Objects.find_put]
  by_cases same : other = key
  · rw [same, Function.update_self]
    refine iff_of_false ?_ ?_
    · rintro ⟨ioev, found, has, _⟩
      rw [found, Option.any_some, has] at free
      cases free
    · rintro ⟨ioev, found, has, _⟩
      cases found
      rw [added] at has
      cases has
  · rw [Function.update_of_ne same]

theorem Registered.drop (registered : Registered bit table ioevs)
    (free : (ioevs.find key).any FkIoevT.added = false) :
    Registered bit table (ioevs.drop key) := by
  intro wanted other
  rw [registered wanted other, Objects.find_drop]
  by_cases same : other = key
  · rw [same, Function.update_self]
    refine iff_of_false ?_ nofun
    rintro ⟨ioev, found, has, _⟩
    rw [found, Option.any_some, has] at free
    cases free
  · rw [Function.update_of_ne same]

theorem Registered.add (registered : Registered bit table ioevs)
    (found : ioevs.find key = some ioev) (free : ioev.added = false)
    (empty : ioev.type &&& bit ≠ 0 → ∀ other, table ioev.fd ≠ some (some other))
    (added : changed.added = true) (type : changed.type = ioev.type) (fd : changed.fd = ioev.fd) :
    Registered bit (slot bit table ioev (some key)) (ioevs.put key changed) := by
  intro wanted other
  rw [Objects.find_put]
  unfold slot
  by_cases same : other = key
  · rw [same, Function.update_self]
    simp only [Option.some.injEq, exists_eq_left', added, type, fd, true_and]
    split
    · next typed =>
        by_cases here : wanted = ioev.fd
        · rw [here, Function.update_self]
          exact iff_of_true rfl ⟨typed, rfl⟩
        · rw [Function.update_of_ne here, registered wanted key]
          refine iff_of_false ?_ fun both => here both.2.symm
          rintro ⟨other, there, has, _⟩
          rw [found] at there
          cases there
          rw [free] at has
          cases has
    · next typed =>
        rw [registered wanted key]
        refine iff_of_false ?_ fun both => typed both.1
        rintro ⟨other, there, _, is, _⟩
        rw [found] at there
        cases there
        exact typed is
  · rw [Function.update_of_ne same]
    split
    · next typed =>
        by_cases here : wanted = ioev.fd
        · rw [here, Function.update_self, ← registered ioev.fd other]
          refine iff_of_false (fun equal => same ?_) (empty typed other)
          exact (Option.some.inj (Option.some.inj equal)).symm
        · rw [Function.update_of_ne here, registered wanted other]
    · exact registered wanted other

theorem Registered.remove (registered : Registered bit table ioevs)
    (found : ioevs.find key = some ioev) (has : ioev.added = true)
    (removed : changed.added = false) :
    Registered bit (slot bit table ioev none) (ioevs.put key changed) := by
  intro wanted other
  rw [Objects.find_put]
  unfold slot
  by_cases same : other = key
  · rw [same, Function.update_self]
    refine iff_of_false ?_ ?_
    · split
      · next typed =>
          by_cases here : wanted = ioev.fd
          · rw [here, Function.update_self]
            exact nofun
          · rw [Function.update_of_ne here, registered wanted key]
            rintro ⟨other, there, _, _, fd⟩
            rw [found] at there
            cases there
            exact here fd.symm
      · next typed =>
          rw [registered wanted key]
          rintro ⟨other, there, _, is, _⟩
          rw [found] at there
          cases there
          exact typed is
    · rintro ⟨other, there, added, _⟩
      cases there
      rw [removed] at added
      cases added
  · rw [Function.update_of_ne same]
    split
    · next typed =>
        by_cases here : wanted = ioev.fd
        · rw [here, Function.update_self, ← registered ioev.fd other]
          refine iff_of_false nofun fun there => same ?_
          have mine : table ioev.fd = some (some key) :=
            (registered ioev.fd key).mpr ⟨ioev, found, has, typed, rfl⟩
          rw [mine] at there
          exact (Option.some.inj (Option.some.inj there)).symm
        · rw [Function.update_of_ne here, registered wanted other]
    · exact registered wanted other

end Tables

namespace FkEvmgr

/-! ## Operations on I/O events -/

/-- One I/O event is changed, made or destroyed. -/
structure IoStep (before : FkEvmgr I T) (key : I) (new : Option FkIoevT)
    (after : FkEvmgr I T) : Prop where
  agrees : after.Agrees
  find : after.ioevs.find = Function.update before.ioevs.find key new
  tmevs : after.tmevs = before.tmevs
  expTmev : after.expTmev = before.expTmev
  actIoev : after.actIoev.length ≤ before.actIoev.length

section IoSteps

variable {mgr : FkEvmgr I T} {key : I} {ioev : FkIoevT}

/-- An I/O event is put next to timers that stay as they are. -/
theorem Agrees.withIo {after : FkEvmgr I T} (agrees : mgr.Agrees) (io : after.IoAgrees)
    (tmevs : after.tmevs = mgr.tmevs) (cnt : after.tmevCnt = mgr.tmevCnt)
    (heap : after.timerHeap = mgr.timerHeap) (exp : after.expTmev = mgr.expTmev)
    (old : after.oldTmev = mgr.oldTmev) : after.Agrees where
  io := io
  tm := by
    refine ⟨?_, ?_, ?_, ?_, ?_⟩
    · rw [heap]
      exact agrees.tm.heap
    · rw [heap, tmevs]
      exact agrees.tm.pending
    · rw [exp, tmevs]
      exact agrees.tm.expired
    · rw [old, tmevs]
      exact agrees.tm.old
    · rw [cnt, tmevs]
      exact agrees.tm.cnt

theorem fkIoevPut_step (agrees : mgr.Agrees) (fresh : mgr.ioevs.find key = none)
    (init : ioev.stat = .init) :
    ∃ after, fkIoevPut key ioev mgr = .ok () after ∧ IoStep mgr key (some ioev) after := by
  have notActivated : ioev.activated = false := by
    rw [FkIoevT.activated, init]
    rfl
  have notAdded : ioev.added = false := by
    rw [FkIoevT.added, init]
    rfl
  have free : (mgr.ioevs.find key).any FkIoevT.added = false := by
    rw [fresh]
    rfl
  have counted := mgr.ioevs.count_put key ioev FkIoevT.added
  rw [free, notAdded] at counted
  refine ⟨_, rfl, agrees.withIo ⟨?_, ?_, ?_, ?_⟩ rfl rfl rfl rfl rfl, rfl, rfl, rfl, Nat.le_refl _⟩
  · refine agrees.io.activated.put_same ?_
    rw [fresh, notActivated]
    rfl
  · exact agrees.io.read.put_free free notAdded
  · exact agrees.io.write.put_free free notAdded
  · change mgr.ioevCnt = ((mgr.ioevs.put key ioev).count FkIoevT.added : Nat)
    rw [agrees.io.cnt]
    exact congrArg _ counted.symm

theorem fkIoevDestroy_step (agrees : mgr.Agrees) (found : mgr.ioevs.find key = some ioev)
    (init : ioev.stat = .init) :
    ∃ after, fkIoevDestroy key mgr = .ok () after ∧ IoStep mgr key none after := by
  have free : (mgr.ioevs.find key).any FkIoevT.added = false := by
    rw [found, Option.any_some, FkIoevT.added, init]
    rfl
  have counted := mgr.ioevs.count_erase key FkIoevT.added
  rw [free] at counted
  refine ⟨{ mgr with ioevs := mgr.ioevs.drop key }, ?_,
    agrees.withIo ⟨?_, ?_, ?_, ?_⟩ rfl rfl rfl rfl rfl, rfl, rfl, rfl, Nat.le_refl _⟩
  · unfold fkIoevDestroy
    rw [found]
  · refine agrees.io.activated.drop ?_
    rw [found, Option.any_some, FkIoevT.activated, init]
    rfl
  · exact agrees.io.read.drop free
  · exact agrees.io.write.drop free
  · change mgr.ioevCnt = ((mgr.ioevs.drop key).count FkIoevT.added : Nat)
    rw [agrees.io.cnt]
    exact congrArg _ counted.symm

theorem fkEvAddIoev_step (agrees : mgr.Agrees) (found : mgr.ioevs.find key = some ioev)
    (init : ioev.stat = .init)
    (read : ioev.type &&& fkIoevRead ≠ 0 → ∀ other, mgr.readEv ioev.fd ≠ some (some other))
    (write : ioev.type &&& fkIoevWrite ≠ 0 → ∀ other, mgr.writeEv ioev.fd ≠ some (some other)) :
    ∃ after, fkEvAddIoev key mgr = .ok .ok after ∧
      IoStep mgr key (some { ioev with stat := .pending }) after := by
  have free : ioev.added = false := by
    rw [FkIoevT.added, init]
    rfl
  have counted := mgr.ioevs.count_put key { ioev with stat := .pending } FkIoevT.added
  rw [found, Option.any_some, free] at counted
  refine ⟨{ mgr with
    readEv := slot fkIoevRead mgr.readEv ioev (some key)
    writeEv := slot fkIoevWrite mgr.writeEv ioev (some key)
    ioevs := mgr.ioevs.put key { ioev with stat := .pending }
    ioevCnt := mgr.ioevCnt + 1 }, ?_, agrees.withIo ⟨?_, ?_, ?_, ?_⟩ rfl rfl rfl rfl rfl, rfl, rfl,
    rfl, Nat.le_refl _⟩
  · unfold fkEvAddIoev
    rw [found]
    exact if_neg (not_not_intro init)
  · refine agrees.io.activated.put_same ?_
    rw [found, Option.any_some, FkIoevT.activated, init]
    rfl
  · exact agrees.io.read.add found free read rfl rfl rfl
  · exact agrees.io.write.add found free write rfl rfl rfl
  · change mgr.ioevCnt + 1 =
      ((mgr.ioevs.put key { ioev with stat := .pending }).count FkIoevT.added : Nat)
    rw [agrees.io.cnt]
    change _ + 0 = _ + 1 at counted
    omega

theorem fkEvRemoveIoev_step (agrees : mgr.Agrees) (found : mgr.ioevs.find key = some ioev)
    (added : ioev.stat ≠ .init) :
    ∃ after, fkEvRemoveIoev key mgr = .ok .ok after ∧
      IoStep mgr key (some { ioev with stat := .init }) after := by
  have has : ioev.added = true := decide_eq_true added
  have counted := mgr.ioevs.count_put key { ioev with stat := .init } FkIoevT.added
  rw [found, Option.any_some, has] at counted
  have cnt : mgr.ioevCnt - 1 =
      ((mgr.ioevs.put key { ioev with stat := .init }).count FkIoevT.added : Nat) := by
    rw [agrees.io.cnt]
    change _ + 1 = _ + 0 at counted
    omega
  have removed : ∀ actIoev,
      (if ioev.stat = .activated then fkRawlistRemoveAnyone mgr.actIoev key else some mgr.actIoev) =
      some actIoev → fkEvRemoveIoev key mgr = .ok .ok { mgr with
        actIoev := actIoev
        ioevs := mgr.ioevs.put key { ioev with stat := .init }
        readEv := slot fkIoevRead mgr.readEv ioev none
        writeEv := slot fkIoevWrite mgr.writeEv ioev none
        ioevCnt := mgr.ioevCnt - 1 } := by
    intro actIoev taken
    unfold fkEvRemoveIoev
    rw [found]
    dsimp only
    rw [if_neg added, taken]
  have read : Registered fkIoevRead (slot fkIoevRead mgr.readEv ioev none)
      (mgr.ioevs.put key { ioev with stat := .init }) :=
    agrees.io.read.remove found has rfl
  have write : Registered fkIoevWrite (slot fkIoevWrite mgr.writeEv ioev none)
      (mgr.ioevs.put key { ioev with stat := .init }) :=
    agrees.io.write.remove found has rfl
  by_cases activated : ioev.stat = .activated
  · have isActivated : (mgr.ioevs.find key).any FkIoevT.activated = true := by
      rw [found, Option.any_some, FkIoevT.activated, activated]
      rfl
    have listed := agrees.io.activated.mem_iff.mpr isActivated
    refine ⟨_, removed (mgr.actIoev.erase key) ?_,
      agrees.withIo ⟨?_, read, write, cnt⟩ rfl rfl rfl rfl rfl, rfl, rfl, rfl,
      List.erase_sublist.length_le⟩
    · rw [if_pos activated, fkRawlistRemoveAnyone, if_pos listed]
    · exact agrees.io.activated.put_erase isActivated rfl
  · refine ⟨_, removed mgr.actIoev (if_neg activated),
      agrees.withIo ⟨?_, read, write, cnt⟩ rfl rfl rfl rfl rfl, rfl, rfl, rfl, Nat.le_refl _⟩
    refine agrees.io.activated.put_same ?_
    rw [found, Option.any_some, FkIoevT.activated, decide_eq_false activated]
    rfl

/-- Step 1 of a round takes the event off the list. -/
theorem takeActivated_step (agrees : mgr.Agrees) {rest : List I}
    (head : mgr.actIoev = key :: rest) :
    ∃ ioev after, mgr.ioevs.find key = some ioev ∧ ioev.stat = .activated ∧
      takeActivated key mgr = .ok () after ∧
      IoStep mgr key (some { ioev with stat := .pending }) after ∧ after.actIoev = rest := by
  have member : key ∈ mgr.actIoev := by
    rw [head]
    exact List.mem_cons_self ..
  have isActivated := agrees.io.activated.mem_iff.mp member
  cases found : mgr.ioevs.find key with
  | none =>
      rw [found] at isActivated
      cases isActivated
  | some ioev =>
      have isIoev := isActivated
      rw [found, Option.any_some] at isIoev
      have activated : ioev.stat = .activated := of_decide_eq_true isIoev
      have has : ioev.added = true := by
        rw [FkIoevT.added, activated]
        rfl
      have counted := mgr.ioevs.count_put key { ioev with stat := .pending } FkIoevT.added
      rw [found, Option.any_some, has] at counted
      have erased : mgr.actIoev.erase key = rest := by
        rw [head, List.erase_cons_head]
      refine ⟨ioev, { mgr with
        actIoev := mgr.actIoev.erase key
        ioevs := mgr.ioevs.put key { ioev with stat := .pending } }, rfl, activated, ?_, ?_, erased⟩
      · unfold takeActivated
        rw [found, fkRawlistRemoveAnyone, if_pos member]
      · refine ⟨agrees.withIo ⟨?_, ?_, ?_, ?_⟩ rfl rfl rfl rfl rfl, rfl, rfl, rfl,
          List.erase_sublist.length_le⟩
        · exact agrees.io.activated.put_erase isActivated rfl
        · exact agrees.io.read.put_same found has.symm rfl rfl
        · exact agrees.io.write.put_same found has.symm rfl rfl
        · change mgr.ioevCnt = ((mgr.ioevs.put key _).count FkIoevT.added : Nat)
          rw [agrees.io.cnt]
          change _ + 1 = _ + 1 at counted
          omega

end IoSteps

/-! ## Activation -/

/-- I/O events change at most from pending to activated. -/
structure Activates (before after : FkEvmgr I T) : Prop where
  agrees : after.Agrees
  find : ∀ key ioev, before.ioevs.find key = some ioev →
    ∃ changed, after.ioevs.find key = some changed ∧ changed.fd = ioev.fd ∧
      changed.type = ioev.type ∧ (changed.stat = .init ↔ ioev.stat = .init)
  none : ∀ key, before.ioevs.find key = none → after.ioevs.find key = none
  tmevs : after.tmevs = before.tmevs
  readEv : after.readEv = before.readEv
  writeEv : after.writeEv = before.writeEv

/-- The entries of the reported directions were written at some time. -/
def EntriesSet (mgr : FkEvmgr I T) (fd : Int) (type : UInt8) : Prop :=
  (type &&& fkIoevRead ≠ 0 → mgr.readEv fd ≠ Option.none) ∧
    (type &&& fkIoevWrite ≠ 0 → mgr.writeEv fd ≠ Option.none)

instance (mgr : FkEvmgr I T) (fd : Int) (type : UInt8) : Decidable (mgr.EntriesSet fd type) :=
  inferInstanceAs (Decidable (_ ∧ _))

section Activation

variable {mgr : FkEvmgr I T}

theorem Activates.refl (agrees : mgr.Agrees) : Activates mgr mgr :=
  ⟨agrees, fun _ ioev found => ⟨ioev, found, rfl, rfl, Iff.rfl⟩, fun _ absent => absent, rfl, rfl,
    rfl⟩

theorem Activates.trans {first second third : FkEvmgr I T} (one : Activates first second)
    (two : Activates second third) :
    Activates first third where
  agrees := two.agrees
  find := by
    intro key ioev found
    obtain ⟨middle, there, fd, type, stat⟩ := one.find key ioev found
    obtain ⟨last, here, fd', type', stat'⟩ := two.find key middle there
    exact ⟨last, here, fd'.trans fd, type'.trans type, stat'.trans stat⟩
  none := fun key absent => two.none key (one.none key absent)
  tmevs := two.tmevs.trans one.tmevs
  readEv := two.readEv.trans one.readEv
  writeEv := two.writeEv.trans one.writeEv

theorem Activates.entriesSet {before after : FkEvmgr I T} {fd : Int} {type : UInt8}
    (activates : Activates before after) (known : before.EntriesSet fd type) :
    after.EntriesSet fd type := by
  unfold EntriesSet at known ⊢
  rw [activates.readEv, activates.writeEv]
  exact known

theorem activateEntry_activates (agrees : mgr.Agrees) {entry : Option (Option I)}
    (written : entry ≠ Option.none)
    (live : ∀ key, entry = some (some key) → ∃ ioev, mgr.ioevs.find key = some ioev) :
    ∃ after, activateEntry entry mgr = .ok () after ∧ Activates mgr after := by
  rcases entry with _ | _ | key
  · exact (written rfl).elim
  · exact ⟨mgr, rfl, .refl agrees⟩
  · obtain ⟨ioev, found⟩ := live key rfl
    unfold activateEntry
    dsimp only
    rw [found]
    dsimp only
    split
    · next pending =>
        have has : ioev.added = true := by
          rw [FkIoevT.added, pending]
          rfl
        have inactive : (mgr.ioevs.find key).any FkIoevT.activated = false := by
          rw [found, Option.any_some, FkIoevT.activated, pending]
          rfl
        have counted := mgr.ioevs.count_put key { ioev with stat := .activated } FkIoevT.added
        rw [found, Option.any_some, has] at counted
        refine ⟨_, rfl, agrees.withIo ⟨?_, ?_, ?_, ?_⟩ rfl rfl rfl rfl rfl,
          fun other old there => ?_, fun other absent => ?_, rfl, rfl, rfl⟩
        · exact agrees.io.activated.put_cons inactive rfl
        · exact agrees.io.read.put_same found has.symm rfl rfl
        · exact agrees.io.write.put_same found has.symm rfl rfl
        · change mgr.ioevCnt = ((mgr.ioevs.put key { ioev with stat := .activated }).count
            FkIoevT.added : Nat)
          rw [agrees.io.cnt]
          change _ + 1 = _ + 1 at counted
          omega
        · change ∃ changed, Function.update mgr.ioevs.find key _ other = some changed ∧ _
          by_cases same : other = key
          · rw [same, Function.update_self]
            rw [same, found] at there
            cases there
            exact ⟨_, rfl, rfl, rfl, iff_of_false nofun (by rw [pending]; exact nofun)⟩
          · rw [Function.update_of_ne same]
            exact ⟨old, there, rfl, rfl, Iff.rfl⟩
        · change Function.update mgr.ioevs.find key _ other = none
          rw [Function.update_of_ne, absent]
          rintro rfl
          rw [found] at absent
          cases absent
    · exact ⟨mgr, rfl, .refl agrees⟩

theorem fkEvActivateIoev_activates (agrees : mgr.Agrees) {fd : Int} {type : UInt8}
    (known : mgr.EntriesSet fd type) :
    ∃ after, fkEvActivateIoev fd type mgr = .ok () after ∧ Activates mgr after := by
  have reads : ∃ middle, (if type &&& fkIoevRead ≠ 0 then Act.read (fun mgr => mgr.readEv fd) >>=
      activateEntry else pure () :
      Act (FkEvmgr I T) Unit) mgr = .ok () middle ∧ Activates mgr middle := by
    split
    · next typed =>
        refine activateEntry_activates agrees (known.1 typed) fun key entry => ?_
        obtain ⟨ioev, found, _⟩ := (agrees.io.read fd key).mp entry
        exact ⟨ioev, found⟩
    · exact ⟨mgr, rfl, .refl agrees⟩
  obtain ⟨middle, first, activates⟩ := reads
  have writes : ∃ after, (if type &&& fkIoevWrite ≠ 0 then Act.read (fun mgr => mgr.writeEv fd) >>=
      activateEntry else pure () :
      Act (FkEvmgr I T) Unit) middle = .ok () after ∧ Activates middle after := by
    split
    · next typed =>
        refine activateEntry_activates activates.agrees ((activates.entriesSet known).2 typed)
          fun key entry => ?_
        obtain ⟨ioev, found, _⟩ := (activates.agrees.io.write fd key).mp entry
        exact ⟨ioev, found⟩
    · exact ⟨middle, rfl, .refl activates.agrees⟩
  obtain ⟨after, second, more⟩ := writes
  refine ⟨after, ?_, activates.trans more⟩
  unfold fkEvActivateIoev
  split
  · next typed =>
      rw [if_pos typed] at first
      exact (Act.bind_assoc _ _ _ _).symm.trans ((Act.bind_ok first).trans second)
  · next typed =>
      rw [if_neg typed] at first
      cases first
      exact second

end Activation

/-! ## Operations on timers -/

/-- One timer is changed, made or destroyed. -/
structure TmStep (before : FkEvmgr I T) (key : T) (new : Option FkTmevT)
    (after : FkEvmgr I T) : Prop where
  agrees : after.Agrees
  find : after.tmevs.find = Function.update before.tmevs.find key new
  ioevs : after.ioevs = before.ioevs
  actIoev : after.actIoev = before.actIoev
  expTmev : after.expTmev.length ≤ before.expTmev.length

section TmSteps

variable {mgr : FkEvmgr I T} {key : T} {tmev : FkTmevT}

/-- Timers are changed next to I/O events that stay as they are. -/
theorem Agrees.withTm {after : FkEvmgr I T} (agrees : mgr.Agrees) (tm : after.TmAgrees)
    (ioevs : after.ioevs = mgr.ioevs) (cnt : after.ioevCnt = mgr.ioevCnt)
    (act : after.actIoev = mgr.actIoev) (read : after.readEv = mgr.readEv)
    (write : after.writeEv = mgr.writeEv) : after.Agrees where
  tm := tm
  io := by
    refine ⟨?_, ?_, ?_, ?_⟩
    · rw [act, ioevs]
      exact agrees.io.activated
    · rw [read, ioevs]
      exact agrees.io.read
    · rw [write, ioevs]
      exact agrees.io.write
    · rw [cnt, ioevs]
      exact agrees.io.cnt

omit [DecidableEq I] [DecidableEq T] in
theorem is_of_stat {stat : FkTmevStat} (found : mgr.tmevs.find key = some tmev)
    (known : tmev.stat = stat) :
    (mgr.tmevs.find key).any (FkTmevT.is stat) = true := by
  rw [found, Option.any_some, FkTmevT.is, known]
  exact decide_eq_true rfl

omit [DecidableEq I] [DecidableEq T] in
theorem not_is_of_stat {stat : FkTmevStat} (found : mgr.tmevs.find key = some tmev)
    (other : tmev.stat ≠ stat) :
    (mgr.tmevs.find key).any (FkTmevT.is stat) = false := by
  rw [found, Option.any_some, FkTmevT.is]
  exact decide_eq_false other

/-- The heap of the pending timers when one of them is changed. -/
theorem pending_put {heap : FkHeap T} {tmevs : Objects T FkTmevT} {changed : FkTmevT}
    {holds : T → Prop} (pending : ∀ key, holds key ↔
      (tmevs.find key).any (FkTmevT.is .pending) = true)
    (contains : ∀ other, heap.Contains other ↔
      if other = key then changed.stat = .pending else holds other) (other : T) :
    heap.Contains other ↔ ((tmevs.put key changed).find other).any
      (FkTmevT.is .pending) = true := by
  rw [contains, Objects.find_put]
  by_cases same : other = key
  · rw [if_pos same, same, Function.update_self, Option.any_some, FkTmevT.is, decide_eq_true_iff]
  · rw [if_neg same, Function.update_of_ne same, pending]

theorem fkTmevPut_step (agrees : mgr.Agrees) (fresh : mgr.tmevs.find key = none)
    (init : tmev.stat = .init) :
    ∃ after, fkTmevPut key tmev mgr = .ok () after ∧ TmStep mgr key (some tmev) after := by
  have counted := mgr.tmevs.count_put key tmev FkTmevT.added
  rw [fresh, FkTmevT.added, init] at counted
  have free : ∀ {stat}, stat ≠ FkTmevStat.init →
      (mgr.tmevs.find key).any (FkTmevT.is stat) = FkTmevT.is stat tmev := by
    intro stat other
    rw [fresh, FkTmevT.is, init, decide_eq_false other.symm]
    rfl
  refine ⟨_, rfl, agrees.withTm ⟨agrees.tm.heap, ?_, ?_, ?_, ?_⟩ rfl rfl rfl rfl rfl, rfl, rfl, rfl,
    Nat.le_refl _⟩
  · refine pending_put agrees.tm.pending fun other => ?_
    split
    · next same =>
        rw [same, agrees.tm.pending, fresh, init]
        exact iff_of_false nofun nofun
    · rfl
  · exact agrees.tm.expired.put_same (free nofun)
  · exact agrees.tm.old.put_same (free nofun)
  · change mgr.tmevCnt = ((mgr.tmevs.put key tmev).count FkTmevT.added : Nat)
    rw [agrees.tm.cnt]
    exact congrArg _ counted.symm

theorem fkTmevDestroy_step (agrees : mgr.Agrees) (found : mgr.tmevs.find key = some tmev)
    (init : tmev.stat = .init) :
    ∃ after, fkTmevDestroy key mgr = .ok () after ∧ TmStep mgr key none after := by
  have counted := mgr.tmevs.count_erase key FkTmevT.added
  rw [found, Option.any_some, FkTmevT.added, init] at counted
  refine ⟨{ mgr with tmevs := mgr.tmevs.drop key }, ?_,
    agrees.withTm ⟨agrees.tm.heap, ?_, ?_, ?_, ?_⟩ rfl rfl rfl rfl rfl,
    rfl, rfl, rfl, Nat.le_refl _⟩
  · unfold fkTmevDestroy
    rw [found]
  · intro other
    change mgr.timerHeap.Contains other ↔
      (Function.update mgr.tmevs.find key none other).any _ = true
    rw [agrees.tm.pending]
    by_cases same : other = key
    · rw [same, Function.update_self, not_is_of_stat found (by rw [init]; exact nofun)]
      rfl
    · rw [Function.update_of_ne same]
  · exact agrees.tm.expired.drop (not_is_of_stat found (by rw [init]; exact nofun))
  · exact agrees.tm.old.drop (not_is_of_stat found (by rw [init]; exact nofun))
  · change mgr.tmevCnt = ((mgr.tmevs.drop key).count FkTmevT.added : Nat)
    rw [agrees.tm.cnt]
    exact congrArg _ counted.symm

theorem fkEvAddTmev_step (agrees : mgr.Agrees) (found : mgr.tmevs.find key = some tmev)
    (init : tmev.stat = .init) :
    ∃ after, fkEvAddTmev key mgr = .ok .ok after ∧
      TmStep mgr key (some { tmev with stat := .pending }) after := by
  have outside : ¬ mgr.timerHeap.Contains key := by
    rw [agrees.tm.pending, not_is_of_stat found (by rw [init]; exact nofun)]
    exact nofun
  obtain ⟨heap, pushed, wf, contains⟩ := FkHeap.push_contains mgr.leafCmp agrees.tm.heap outside
  have counted := mgr.tmevs.count_put key { tmev with stat := .pending } FkTmevT.added
  rw [found, Option.any_some, FkTmevT.added, init] at counted
  refine ⟨{ mgr with
    timerHeap := heap
    tmevs := mgr.tmevs.put key { tmev with stat := .pending }
    tmevCnt := mgr.tmevCnt + 1 }, ?_, agrees.withTm ⟨wf, ?_, ?_, ?_, ?_⟩ rfl rfl rfl rfl rfl, rfl,
    rfl, rfl, Nat.le_refl _⟩
  · unfold fkEvAddTmev
    rw [found]
    dsimp only
    rw [if_neg (not_not_intro init), pushed]
  · refine pending_put agrees.tm.pending fun other => ?_
    rw [contains]
    split
    · next same => exact iff_of_true (.inl same) rfl
    · next apart => exact or_iff_right apart
  · exact agrees.tm.expired.put_same (not_is_of_stat found (by rw [init]; exact nofun))
  · exact agrees.tm.old.put_same (not_is_of_stat found (by rw [init]; exact nofun))
  · change mgr.tmevCnt + 1 =
      ((mgr.tmevs.put key { tmev with stat := .pending }).count FkTmevT.added : Nat)
    rw [agrees.tm.cnt]
    change _ + 0 = _ + 1 at counted
    omega

/-- What `fk_ev_remove_tmev` leaves, given what each container is after it. -/
def untimed (mgr : FkEvmgr I T) (key : T) (tmev : FkTmevT) (heap : FkHeap T)
    (expTmev oldTmev : List T) : FkEvmgr I T :=
  { mgr with
    timerHeap := heap
    expTmev := expTmev
    oldTmev := oldTmev
    tmevs := mgr.tmevs.put key { tmev with stat := .init }
    tmevCnt := mgr.tmevCnt - 1 }

/-- A container that a timer is not in. -/
theorem untimed_step {heap : FkHeap T} {expTmev oldTmev : List T} (agrees : mgr.Agrees)
    (found : mgr.tmevs.find key = some tmev) (added : tmev.stat ≠ .init) (wf : heap.Wf)
    (contains : ∀ other, heap.Contains other ↔ other ≠ key ∧ mgr.timerHeap.Contains other)
    (expired : Listed expTmev (mgr.tmevs.put key { tmev with stat := .init }) (FkTmevT.is .expired))
    (old : Listed oldTmev (mgr.tmevs.put key { tmev with stat := .init }) (FkTmevT.is .old))
    (shorter : expTmev.length ≤ mgr.expTmev.length) :
    TmStep mgr key (some { tmev with stat := .init })
      (mgr.untimed key tmev heap expTmev oldTmev) := by
  have has : tmev.added = true := decide_eq_true added
  have counted := mgr.tmevs.count_put key { tmev with stat := .init } FkTmevT.added
  rw [found, Option.any_some, has] at counted
  refine ⟨agrees.withTm ⟨wf, ?_, expired, old, ?_⟩ rfl rfl rfl rfl rfl, rfl, rfl, rfl, shorter⟩
  · refine pending_put agrees.tm.pending fun other => ?_
    change heap.Contains other ↔ _
    rw [contains]
    split
    · next same => exact iff_of_false (fun both => both.1 same) nofun
    · next apart => exact and_iff_right apart
  · change mgr.tmevCnt - 1 =
      ((mgr.tmevs.put key { tmev with stat := .init }).count FkTmevT.added : Nat)
    rw [agrees.tm.cnt]
    change _ + 1 = _ + 0 at counted
    omega

theorem fkEvRemoveTmev_step (agrees : mgr.Agrees) (found : mgr.tmevs.find key = some tmev)
    (added : tmev.stat ≠ .init) :
    ∃ after, fkEvRemoveTmev key mgr = .ok .ok after ∧
      TmStep mgr key (some { tmev with stat := .init }) after := by
  have removed : ∀ heap expTmev oldTmev,
      (if tmev.stat = .pending then fkHeapRemove mgr.leafCmp mgr.timerHeap key
        else some mgr.timerHeap) = some heap →
      (if tmev.stat = .expired then fkRawlistRemoveAnyone mgr.expTmev key else some mgr.expTmev) =
        some expTmev →
      (if tmev.stat = .old then fkRawlistRemoveAnyone mgr.oldTmev key else some mgr.oldTmev) =
        some oldTmev →
      fkEvRemoveTmev key mgr = .ok .ok (mgr.untimed key tmev heap expTmev oldTmev) := by
    intro heap expTmev oldTmev fromHeap fromExp fromOld
    unfold fkEvRemoveTmev
    rw [found]
    dsimp only
    rw [if_neg added, fromHeap, fromExp, fromOld]
    rfl
  have stays : tmev.stat ≠ .pending → ∀ other, mgr.timerHeap.Contains other ↔ other ≠ key ∧
      mgr.timerHeap.Contains other := by
    intro notPending other
    refine (and_iff_right_of_imp fun inside same => ?_).symm
    rw [same, agrees.tm.pending, not_is_of_stat found notPending] at inside
    cases inside
  have unlisted : ∀ {list : List T} {stat}, Listed list mgr.tmevs (FkTmevT.is stat) →
      tmev.stat ≠ stat → stat ≠ .init → Listed list (mgr.tmevs.put key { tmev with stat := .init })
        (FkTmevT.is stat) := fun listed other notInit =>
    listed.put_same ((not_is_of_stat found other).trans (decide_eq_false notInit.symm).symm)
  cases stat : tmev.stat with
  | init => exact (added stat).elim
  | pending =>
      obtain ⟨heap, called, wf, _, contains⟩ := FkHeap.remove_contains mgr.leafCmp agrees.tm.heap
        ((agrees.tm.pending key).mpr (is_of_stat found stat))
      rw [stat] at removed
      refine ⟨_, removed heap mgr.expTmev mgr.oldTmev called rfl rfl,
        untimed_step agrees found added wf contains ?_ ?_ (Nat.le_refl _)⟩
      · exact unlisted agrees.tm.expired (by rw [stat]; exact nofun) nofun
      · exact unlisted agrees.tm.old (by rw [stat]; exact nofun) nofun
  | expired =>
      have is := is_of_stat found stat
      have member := agrees.tm.expired.mem_iff.mpr is
      rw [stat] at removed
      refine ⟨_, removed mgr.timerHeap (mgr.expTmev.erase key) mgr.oldTmev rfl (if_pos member) rfl,
        untimed_step agrees found added agrees.tm.heap (stays (by rw [stat]; exact nofun)) ?_ ?_
          List.erase_sublist.length_le⟩
      · exact agrees.tm.expired.put_erase is rfl
      · exact unlisted agrees.tm.old (by rw [stat]; exact nofun) nofun
  | old =>
      have is := is_of_stat found stat
      have member := agrees.tm.old.mem_iff.mpr is
      rw [stat] at removed
      refine ⟨_, removed mgr.timerHeap mgr.expTmev (mgr.oldTmev.erase key) rfl rfl (if_pos member),
        untimed_step agrees found added agrees.tm.heap (stays (by rw [stat]; exact nofun)) ?_ ?_
          (Nat.le_refl _)⟩
      · exact unlisted agrees.tm.expired (by rw [stat]; exact nofun) nofun
      · exact agrees.tm.old.put_erase is rfl

/-- A timer that was added changes from one state to another. -/
theorem restated_cnt (agrees : mgr.Agrees) (found : mgr.tmevs.find key = some tmev)
    (added : tmev.stat ≠ .init) {changed : FkTmevT} (again : changed.stat ≠ .init) :
    mgr.tmevCnt = ((mgr.tmevs.put key changed).count FkTmevT.added : Nat) := by
  have has : tmev.added = true := decide_eq_true added
  have hasAgain : changed.added = true := decide_eq_true again
  have counted := mgr.tmevs.count_put key changed FkTmevT.added
  rw [found, Option.any_some, has, hasAgain] at counted
  rw [agrees.tm.cnt]
  omega

/-- The root of the heap is live and pending. -/
theorem root_pending (agrees : mgr.Agrees) (root : fkHeapRoot mgr.timerHeap = some key) :
    ∃ tmev, mgr.tmevs.find key = some tmev ∧ tmev.stat = .pending := by
  obtain ⟨inside, _⟩ := FkHeap.pop_contains mgr.leafCmp agrees.tm.heap root
  rw [agrees.tm.pending] at inside
  cases found : mgr.tmevs.find key with
  | none =>
      rw [found] at inside
      cases inside
  | some tmev =>
      rw [found] at inside
      exact ⟨tmev, rfl, of_decide_eq_true inside⟩

/-- One round of the update: the root is left, or it expires and the heap has a leaf less. -/
theorem expireRoot_step (agrees : mgr.Agrees) (now : Tmval) :
    expireRoot now mgr = .ok false mgr ∨
      ∃ key tmev after, expireRoot now mgr = .ok true after ∧ mgr.tmevs.find key = some tmev ∧
        tmev.stat = .pending ∧ after.Agrees ∧ after.tmevs.find = Function.update mgr.tmevs.find key
          (some { tmev with stat := .expired }) ∧
        after.ioevs = mgr.ioevs ∧ after.actIoev = mgr.actIoev ∧
          after.timerHeap.last + 1 = mgr.timerHeap.last := by
  unfold expireRoot
  cases root : fkHeapRoot mgr.timerHeap with
  | none => exact .inl rfl
  | some key =>
      obtain ⟨tmev, found, pending⟩ := root_pending agrees root
      obtain ⟨_, nonempty, heap, popped, wf, last, contains⟩ :=
        FkHeap.pop_contains mgr.leafCmp agrees.tm.heap root
      have notExpired : (mgr.tmevs.find key).any (FkTmevT.is .expired) = false :=
        not_is_of_stat found (by rw [pending]; exact nofun)
      dsimp only
      rw [found]
      dsimp only
      split
      · rw [popped]
        refine .inr ⟨key, tmev, _, rfl, found, pending,
          agrees.withTm ⟨wf, ?_, ?_, ?_, ?_⟩ rfl rfl rfl rfl rfl, rfl, rfl, rfl, ?_⟩
        · refine pending_put agrees.tm.pending fun other => ?_
          rw [contains]
          split
          · next same => exact iff_of_false (fun both => both.1 same) nofun
          · next apart => exact and_iff_right apart
        · exact agrees.tm.expired.put_cons notExpired rfl
        · exact agrees.tm.old.put_same (not_is_of_stat found (by rw [pending]; exact nofun))
        · exact restated_cnt agrees found (by rw [pending]; exact nofun) nofun
        · change heap.last + 1 = _
          omega
      · exact .inl rfl

/-- Step 1 of a round takes the timer off the expired list. -/
theorem takeExpired_step (agrees : mgr.Agrees) {rest : List T} (head : mgr.expTmev = key :: rest) :
    ∃ tmev after, mgr.tmevs.find key = some tmev ∧ tmev.stat = .expired ∧
      takeExpired key mgr = .ok () after ∧ TmStep mgr key (some { tmev with stat := .old }) after ∧
      after.expTmev = rest := by
  have member : key ∈ mgr.expTmev := by
    rw [head]
    exact List.mem_cons_self ..
  have is := agrees.tm.expired.mem_iff.mp member
  cases found : mgr.tmevs.find key with
  | none =>
      rw [found] at is
      cases is
  | some tmev =>
      have isTmev := is
      rw [found, Option.any_some] at isTmev
      have expired : tmev.stat = .expired := of_decide_eq_true isTmev
      have erased : mgr.expTmev.erase key = rest := by
        rw [head, List.erase_cons_head]
      refine ⟨tmev, { mgr with
        expTmev := mgr.expTmev.erase key
        oldTmev := key :: mgr.oldTmev
        tmevs := mgr.tmevs.put key { tmev with stat := .old } }, rfl, expired, ?_, ?_, erased⟩
      · unfold takeExpired
        rw [found, fkRawlistRemoveAnyone, if_pos member]
      · refine ⟨agrees.withTm ⟨agrees.tm.heap, ?_, ?_, ?_, ?_⟩ rfl rfl rfl rfl rfl, rfl, rfl, rfl,
          List.erase_sublist.length_le⟩
        · refine pending_put agrees.tm.pending fun other => ?_
          split
          · next same =>
              rw [same, agrees.tm.pending, not_is_of_stat found (by rw [expired]; exact nofun)]
              exact iff_of_false nofun nofun
          · rfl
        · exact agrees.tm.expired.put_erase is rfl
        · exact agrees.tm.old.put_cons (not_is_of_stat found (by rw [expired]; exact nofun)) rfl
        · exact restated_cnt agrees found (by rw [expired]; exact nofun) nofun

/-- A timer gets another time. -/
theorem retimed_step (agrees : mgr.Agrees) (found : mgr.tmevs.find key = some tmev)
    (old : tmev.stat = .old) (when : Tmval) :
    TmStep mgr key (some { tmev with when := when })
      { mgr with tmevs := mgr.tmevs.put key { tmev with when := when } } := by
  have same : ∀ {stat}, (mgr.tmevs.find key).any (FkTmevT.is stat) = FkTmevT.is stat
      { tmev with when := when } := by
    intro stat
    rw [found]
    rfl
  refine ⟨agrees.withTm ⟨agrees.tm.heap, ?_, ?_, ?_, ?_⟩ rfl rfl rfl rfl rfl, rfl, rfl, rfl,
    Nat.le_refl _⟩
  · refine pending_put agrees.tm.pending fun other => ?_
    split
    · next is =>
        rw [is, agrees.tm.pending, not_is_of_stat found (by rw [old]; exact nofun)]
        exact iff_of_false nofun (by rw [old]; exact nofun)
    · rfl
  · exact agrees.tm.expired.put_same same
  · exact agrees.tm.old.put_same same
  · exact restated_cnt agrees found (by rw [old]; exact nofun) (by rw [old]; exact nofun)

/-- An old timer goes back to the heap. -/
theorem repended_step (agrees : mgr.Agrees) (found : mgr.tmevs.find key = some tmev)
    (old : tmev.stat = .old) :
    ∃ heap, fkHeapPush mgr.leafCmp mgr.timerHeap key = some heap ∧
      TmStep mgr key (some { tmev with stat := .pending }) { mgr with
        oldTmev := mgr.oldTmev.erase key
        timerHeap := heap
        tmevs := mgr.tmevs.put key { tmev with stat := .pending } } := by
  have is := is_of_stat found old
  have outside : ¬ mgr.timerHeap.Contains key := by
    rw [agrees.tm.pending, not_is_of_stat found (by rw [old]; exact nofun)]
    exact nofun
  obtain ⟨heap, pushed, wf, contains⟩ := FkHeap.push_contains mgr.leafCmp agrees.tm.heap outside
  refine ⟨heap, pushed, agrees.withTm ⟨wf, ?_, ?_, ?_, ?_⟩ rfl rfl rfl rfl rfl, rfl, rfl, rfl,
    Nat.le_refl _⟩
  · refine pending_put agrees.tm.pending fun other => ?_
    change heap.Contains other ↔ _
    rw [contains]
    split
    · next same => exact iff_of_true (.inl same) rfl
    · next apart => exact or_iff_right apart
  · exact agrees.tm.expired.put_same (not_is_of_stat found (by rw [old]; exact nofun))
  · exact agrees.tm.old.put_erase is rfl
  · exact restated_cnt agrees found (by rw [old]; exact nofun) nofun

/-- Step 3 of a round. -/
theorem cycleTmev_step (agrees : mgr.Agrees) (found : mgr.tmevs.find key = some tmev)
    (old : tmev.stat = .old) (now : Tmval) (interval : Nat) :
    ∃ after, cycleTmev now key interval mgr = .ok () after ∧
      TmStep mgr key (some { tmev with when := fkUtilCalExpire now interval, stat := .pending })
        after := by
  have retimed := retimed_step agrees found old (fkUtilCalExpire now interval)
  have member := agrees.tm.old.mem_iff.mpr (is_of_stat found old)
  have timedFound : (mgr.tmevs.put key { tmev with when := fkUtilCalExpire now interval }).find
      key = some { tmev with when := fkUtilCalExpire now interval } := Function.update_self ..
  obtain ⟨heap, pushed, repended⟩ := repended_step retimed.agrees timedFound old
  refine ⟨_, ?_, repended.agrees, ?_, repended.ioevs, repended.actIoev, repended.expTmev⟩
  · unfold cycleTmev
    rw [found, fkRawlistRemoveAnyone, if_pos member]
    dsimp only at pushed ⊢
    rw [pushed]
  · rw [repended.find, retimed.find, Function.update_idem]

end TmSteps

end FkEvmgr

end Freekick
