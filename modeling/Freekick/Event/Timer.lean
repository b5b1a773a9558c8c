import Freekick.Base.Util
import Freekick.Event.HeapOrder

/-!
# Timers: `fk_ev.c`

Pending timers are in a heap ordered by the time they trigger.  Every pass of the
event loop pops the timers that are due.
-/

namespace Freekick

open Lib.HeapOrder

/-- `struct timeval` as the monotonic clock gives it, in a system up for less than
`2 ^ 31` seconds. -/
structure Timeval where
  sec : Int
  usec : Int
  sec_nonneg : 0 ≤ sec
  sec_lt : sec < 2 ^ 31
  usec_nonneg : 0 ≤ usec
  usec_lt : usec < 1000000

/-- The macro `fk_util_tmval_cmp`, with its value assigned to an `int`. -/
def fkUtilTmvalCmp (first second : Timeval) : Int :=
  toInt32 (if first.sec = second.sec then first.usec - second.usec else first.sec - second.sec)

variable {L : Type}

/-- `fk_tmev_cmp` on timers with the given trigger times. -/
def fkTmevCmp (trigger : L → Timeval) (first second : L) : Int :=
  fkUtilTmvalCmp (trigger first) (trigger second)

/-- The loop of `fk_ev_update_pending_tmev`; every round takes one timer from the heap. -/
def updatePending [DecidableEq L] (trigger : L → Timeval) (now : Timeval) :
    Nat → FkHeap L → List L → Option (FkHeap L × List L)
  | 0, timerHeap, expTmev => some (timerHeap, expTmev)
  | fuel + 1, timerHeap, expTmev =>
      match fkHeapRoot timerHeap with
      | none => some (timerHeap, expTmev)
      | some tmev =>
          if 0 ≤ fkUtilTmvalCmp now (trigger tmev) then do
            let (_, rest) ← fkHeapPop (fkTmevCmp trigger) timerHeap
            updatePending trigger now fuel rest (tmev :: expTmev)
          else some (timerHeap, expTmev)

/-- The heap and the list of expired timers after the call. -/
def fkEvUpdatePendingTmev [DecidableEq L] (trigger : L → Timeval) (now : Timeval)
    (timerHeap : FkHeap L) (expTmev : List L) : Option (FkHeap L × List L) :=
  updatePending trigger now timerHeap.last timerHeap expTmev

/-! ## Comparing times -/

/-- The order of time. -/
def Timeval.Le (first second : Timeval) : Prop :=
  first.sec < second.sec ∨ (first.sec = second.sec ∧ first.usec ≤ second.usec)

/-- The difference fits into an `int`. -/
theorem fkUtilTmvalCmp_eq (first second : Timeval) :
    fkUtilTmvalCmp first second =
      if first.sec = second.sec then first.usec - second.usec else first.sec - second.sec := by
  have one := first.sec_nonneg
  have two := first.sec_lt
  have three := first.usec_nonneg
  have four := first.usec_lt
  have five := second.sec_nonneg
  have six := second.sec_lt
  have seven := second.usec_nonneg
  have eight := second.usec_lt
  unfold fkUtilTmvalCmp toInt32
  split
  · exact Int.bmod_eq_of_le (by omega) (by omega)
  · exact Int.bmod_eq_of_le (by omega) (by omega)

theorem fkUtilTmvalCmp_nonpos_iff (first second : Timeval) :
    fkUtilTmvalCmp first second ≤ 0 ↔ first.Le second := by
  rw [fkUtilTmvalCmp_eq, Timeval.Le]
  split <;> omega

theorem fkUtilTmvalCmp_nonneg_iff (first second : Timeval) :
    0 ≤ fkUtilTmvalCmp first second ↔ second.Le first := by
  rw [fkUtilTmvalCmp_eq, Timeval.Le]
  split <;> omega

theorem Timeval.Le.trans {first second third : Timeval} (one : first.Le second)
    (two : second.Le third) :
    first.Le third := by
  unfold Timeval.Le at *
  omega

theorem fkTmevCmp_leafOrder (trigger : L → Timeval) : LeafOrder (fkTmevCmp trigger) where
  swap := by
    intro first second
    unfold fkTmevCmp
    rw [fkUtilTmvalCmp_nonpos_iff, fkUtilTmvalCmp_nonneg_iff]
  trans := by
    intro first second third
    unfold fkTmevCmp
    rw [fkUtilTmvalCmp_nonpos_iff, fkUtilTmvalCmp_nonpos_iff, fkUtilTmvalCmp_nonpos_iff]
    exact fun one two => one.trans two

variable [DecidableEq L]

/-- From an ordered heap all due timers are taken. -/
theorem updatePending_due {trigger : L → Timeval} {now : Timeval} {fuel : Nat} {hp : FkHeap L}
    (expTmev : List L) (wf : hp.Wf) (ordered : hp.Ordered (fkTmevCmp trigger))
    (enough : hp.last ≤ fuel) :
    ∃ after expired, updatePending trigger now fuel hp expTmev = some (after, expired) ∧
      ∀ leaf, after.Contains leaf → ¬ (trigger leaf).Le now := by
  have order := fkTmevCmp_leafOrder trigger
  induction fuel generalizing hp expTmev with
  | zero =>
      refine ⟨hp, expTmev, rfl, ?_⟩
      rintro leaf ⟨i, least, most, _⟩
      omega
  | succ fuel ih =>
      rw [updatePending]
      by_cases nonempty : 1 ≤ hp.last
      · obtain ⟨root, rest, atRoot, popped, restWf, restOrdered, last⟩ :=
          FkHeap.pop_ordered order wf ordered nonempty
        rw [atRoot]
        dsimp only
        split
        · have smaller : rest.last ≤ fuel := by omega
          rw [popped]
          exact ih (root :: expTmev) restWf restOrdered smaller
        · next early =>
            refine ⟨hp, expTmev, rfl, ?_⟩
            intro leaf contains due
            obtain ⟨root', atRoot', le⟩ := ordered.root_minimal order wf (wf.holds_iff.mpr contains)
            rw [atRoot] at atRoot'
            cases atRoot'
            rw [fkUtilTmvalCmp_nonneg_iff] at early
            exact early (((fkUtilTmvalCmp_nonpos_iff _ _).mp le).trans due)
      · have empty : fkHeapRoot hp = none := if_pos (by omega)
        rw [empty]
        refine ⟨hp, expTmev, rfl, ?_⟩
        rintro leaf ⟨i, least, most, _⟩
        omega

/-! ## Runs of the heap -/

inductive HeapOp (L : Type) where
  | push (leaf : L)
  | pop
  | remove (leaf : L)

def heapStep (leafCmp : L → L → Int) (hp : FkHeap L) : HeapOp L → Option (FkHeap L)
  | .push leaf => fkHeapPush leafCmp hp leaf
  | .pop => (fkHeapPop leafCmp hp).map Prod.snd
  | .remove leaf => fkHeapRemove leafCmp hp leaf

/-- Leaves are pushed from outside of the heap and removed from inside. -/
def HeapOp.Allowed (hp : FkHeap L) : HeapOp L → Prop
  | .push leaf => ¬ hp.Contains leaf
  | .pop => True
  | .remove leaf => hp.Contains leaf

/-- A removal takes the root, or a leaf whose parent is not greater than the last leaf. -/
def HeapOp.Fits (leafCmp : L → L → Int) (hp : FkHeap L) : HeapOp L → Prop
  | .push _ => True
  | .pop => True
  | .remove leaf => hp.RemoveFits leafCmp leaf

/-- Every step of a run meets a condition on the state before it. -/
def EachStep (leafCmp : L → L → Int) (meets : FkHeap L → HeapOp L → Prop) :
    FkHeap L → List (HeapOp L) → Prop
  | _, [] => True
  | hp, op :: rest =>
      meets hp op ∧
        match heapStep leafCmp hp op with
        | none => True
        | some next => EachStep leafCmp meets next rest

/-- No operation of a run fails, and every state after an operation is good. -/
def EachState (leafCmp : L → L → Int) (good : FkHeap L → Prop) : FkHeap L → List (HeapOp L) → Prop
  | _, [] => True
  | hp, op :: rest =>
      match heapStep leafCmp hp op with
      | none => False
      | some next => good next ∧ EachState leafCmp good next rest

instance (hp : FkHeap L) (leaf : L) : Decidable (hp.Contains leaf) :=
  decidable_of_iff (∃ i, i < hp.last + 1 ∧ 1 ≤ i ∧ hp.tree i = some leaf) (by
    unfold FkHeap.Contains
    constructor
    · rintro ⟨i, most, least, here⟩
      exact ⟨i, least, Nat.le_of_lt_succ most, here⟩
    · rintro ⟨i, least, most, here⟩
      exact ⟨i, Nat.lt_succ_of_le most, least, here⟩)

instance (hp : FkHeap L) : DecidablePred (HeapOp.Allowed hp)
  | .push leaf => inferInstanceAs (Decidable (¬ hp.Contains leaf))
  | .pop => inferInstanceAs (Decidable True)
  | .remove leaf => inferInstanceAs (Decidable (hp.Contains leaf))

instance (leafCmp : L → L → Int) (hp : FkHeap L) : DecidablePred (HeapOp.Fits leafCmp hp)
  | .push _ => inferInstanceAs (Decidable True)
  | .pop => inferInstanceAs (Decidable True)
  | .remove leaf => inferInstanceAs (Decidable (hp.RemoveFits leafCmp leaf))

instance EachStep.decidable (leafCmp : L → L → Int) (meets : FkHeap L → HeapOp L → Prop)
    [∀ hp, DecidablePred (meets hp)] :
    (hp : FkHeap L) → (ops : List (HeapOp L)) → Decidable (EachStep leafCmp meets hp ops)
  | _, [] => inferInstanceAs (Decidable True)
  | hp, op :: rest =>
      match stepped : heapStep leafCmp hp op with
      | none => decidable_of_iff (meets hp op) (by rw [EachStep, stepped, and_true])
      | some next =>
          have := EachStep.decidable leafCmp meets next rest
          decidable_of_iff (meets hp op ∧ EachStep leafCmp meets next rest)
            (by rw [EachStep, stepped])

instance EachState.decidable (leafCmp : L → L → Int) (good : FkHeap L → Prop) [DecidablePred good] :
    (hp : FkHeap L) → (ops : List (HeapOp L)) → Decidable (EachState leafCmp good hp ops)
  | _, [] => inferInstanceAs (Decidable True)
  | hp, op :: rest =>
      match stepped : heapStep leafCmp hp op with
      | none => isFalse (by rw [EachState, stepped]; exact id)
      | some next =>
          have := EachState.decidable leafCmp good next rest
          decidable_of_iff (good next ∧ EachState leafCmp good next rest)
            (by rw [EachState, stepped])

/-- What the timer heap is for. -/
structure TimerHeap (leafCmp : L → L → Int) (hp : FkHeap L) : Prop where
  ordered : hp.Ordered leafCmp
  root : ∀ leaf, hp.Contains leaf → ∃ root, fkHeapRoot hp = some root ∧ leafCmp root leaf ≤ 0
  expires : ∀ (trigger : L → Timeval) (now : Timeval) (expTmev : List L),
    leafCmp = fkTmevCmp trigger → ∃ after expired, fkEvUpdatePendingTmev trigger now hp expTmev =
    some (after, expired) ∧
      ∀ leaf, after.Contains leaf → ¬ (trigger leaf).Le now

theorem timerHeap_of_ordered {leafCmp : L → L → Int} {hp : FkHeap L} (order : LeafOrder leafCmp)
    (wf : hp.Wf) (ordered : hp.Ordered leafCmp) : TimerHeap leafCmp hp where
  ordered := ordered
  root := fun _ contains => ordered.root_minimal order wf (wf.holds_iff.mpr contains)
  expires := by
    rintro trigger now expTmev rfl
    exact updatePending_due expTmev wf ordered (Nat.le_refl _)

/-- What one allowed step does to an ordered heap. -/
theorem heapStep_ordered_iff {leafCmp : L → L → Int} {hp : FkHeap L} (order : LeafOrder leafCmp)
    (wf : hp.Wf) (ordered : hp.Ordered leafCmp) {op : HeapOp L} (allowed : op.Allowed hp) :
    ∃ next, heapStep leafCmp hp op = some next ∧ next.Wf ∧
      (next.Ordered leafCmp ↔ op.Fits leafCmp hp) := by
  cases op with
  | push leaf =>
      have outside : ¬ hp.Holds leaf := fun holds => allowed (wf.holds_iff.mp holds)
      obtain ⟨after, pushed, afterWf, afterOrdered⟩ := FkHeap.push_ordered order wf ordered outside
      exact ⟨after, pushed, afterWf, fun _ => trivial, fun _ => afterOrdered⟩
  | pop =>
      by_cases nonempty : 1 ≤ hp.last
      · obtain ⟨root, after, _, popped, afterWf, afterOrdered, _⟩ :=
          FkHeap.pop_ordered order wf ordered nonempty
        refine ⟨after, ?_, afterWf, fun _ => trivial, fun _ => afterOrdered⟩
        rw [heapStep, popped]
        rfl
      · refine ⟨hp, ?_, wf, fun _ => trivial, fun _ => ordered⟩
        rw [heapStep, fkHeapPop, if_pos (by omega)]
        rfl
  | remove leaf =>
      obtain ⟨after, removed, afterWf, _, iff⟩ :=
        FkHeap.remove_ordered_iff order wf ordered (wf.holds_iff.mpr allowed)
      exact ⟨after, removed, afterWf, iff⟩

theorem eachState_iff_fits {leafCmp : L → L → Int} {hp : FkHeap L} (order : LeafOrder leafCmp)
    (wf : hp.Wf) (ordered : hp.Ordered leafCmp) {ops : List (HeapOp L)}
    (allowed : EachStep leafCmp HeapOp.Allowed hp ops) :
    EachState leafCmp (TimerHeap leafCmp) hp ops ↔
      EachStep leafCmp (HeapOp.Fits leafCmp) hp ops := by
  induction ops generalizing hp with
  | nil => exact Iff.rfl
  | cons op rest ih =>
      obtain ⟨opAllowed, restAllowed⟩ := allowed
      obtain ⟨next, stepped, nextWf, iff⟩ := heapStep_ordered_iff order wf ordered opAllowed
      rw [stepped] at restAllowed
      rw [EachState, EachStep, stepped]
      constructor
      · rintro ⟨good, later⟩
        exact ⟨iff.mp good.ordered, (ih nextWf good.ordered restAllowed).mp later⟩
      · rintro ⟨fits, later⟩
        have nextOrdered := iff.mpr fits
        exact ⟨timerHeap_of_ordered order nextWf nextOrdered,
          (ih nextWf nextOrdered restAllowed).mpr later⟩

/-- A run keeps the timer heap in order, and with that does what it is for, exactly
when every removal in it fits. -/
theorem fkHeap_run_ordered_iff {leafCmp : L → L → Int} (order : LeafOrder leafCmp)
    (ops : List (HeapOp L)) (allowed : EachStep leafCmp HeapOp.Allowed fkHeapCreate ops) :
    EachState leafCmp (TimerHeap leafCmp) fkHeapCreate ops ↔
      EachStep leafCmp (HeapOp.Fits leafCmp) fkHeapCreate ops :=
  eachState_iff_fits order fkHeapCreate_wf (fkHeapCreate_ordered leafCmp) allowed

/-- Timers that trigger at the second of their number. -/
def secondTimers (timer : Fin 16) : Timeval :=
  ⟨timer.val, 0, Int.natCast_nonneg _, by have := timer.isLt; omega, Int.le_refl 0, by decide⟩

/-- The removed timer 12 is below the timer 10, and the last one, 13, is not less than that. -/
theorem fkHeap_run_ordered_fits :
    let ops : List (HeapOp (Fin 16)) :=
      [.push 1, .push 10, .push 2, .push 12, .push 13, .remove 12, .pop]
    EachStep (fkTmevCmp secondTimers) HeapOp.Allowed fkHeapCreate ops ∧
      EachStep (fkTmevCmp secondTimers) (HeapOp.Fits (fkTmevCmp secondTimers)) fkHeapCreate ops ∧
      EachState (fkTmevCmp secondTimers) (TimerHeap (fkTmevCmp secondTimers)) fkHeapCreate ops := by
  intro ops
  have allowed : EachStep (fkTmevCmp secondTimers) HeapOp.Allowed fkHeapCreate ops := by decide
  have fits : EachStep (fkTmevCmp secondTimers) (HeapOp.Fits (fkTmevCmp secondTimers))
      fkHeapCreate ops := by
    decide
  exact ⟨allowed, fits, (fkHeap_run_ordered_iff (fkTmevCmp_leafOrder secondTimers) ops allowed).mpr
    fits⟩

/-- The timer 3 takes the place of the timer 11 and stays below the timer 10. -/
theorem fkHeap_remove_breaks_order :
    let ops : List (HeapOp (Fin 16)) :=
      [.push 1, .push 10, .push 2, .push 11, .push 12, .push 3, .remove 11]
    LeafOrder (fkTmevCmp secondTimers) ∧
      EachStep (fkTmevCmp secondTimers) HeapOp.Allowed fkHeapCreate ops ∧
      ¬ EachState (fkTmevCmp secondTimers) (FkHeap.Ordered (fkTmevCmp secondTimers))
        fkHeapCreate ops := by
  intro ops
  exact ⟨fkTmevCmp_leafOrder secondTimers, by decide, by decide⟩

end Freekick
