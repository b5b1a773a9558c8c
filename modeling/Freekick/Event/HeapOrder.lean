import Freekick.Base.Util
import Freekick.Event.HeapPositions

/-!
# Order of the timer heap

Insertion keeps the heap ordered.  Removal keeps it ordered exactly when the last
leaf, which takes the place of the removed one, is not less than the parent there.
-/

namespace Freekick

open Lib.HeapOrder

variable {L : Type} {leafCmp : L → L → Int}

/-- Two slots hold leaves, and the first is not greater. -/
def SlotLe (leafCmp : L → L → Int) (first second : Option L) : Prop :=
  ∃ lesser greater, first = some lesser ∧ second = some greater ∧ leafCmp lesser greater ≤ 0

/-- `tree[i >> 1] <= tree[i]` for all positions but the root. -/
def FkHeap.Ordered (leafCmp : L → L → Int) (hp : FkHeap L) : Prop :=
  Lib.HeapOrder.Ordered (SlotLe leafCmp) hp.tree hp.last

theorem SlotLe.trans (order : LeafOrder leafCmp) {first second third : Option L}
    (one : SlotLe leafCmp first second) (two : SlotLe leafCmp second third) :
    SlotLe leafCmp first third := by
  obtain ⟨lesser, middle, atFirst, atSecond, le⟩ := one
  obtain ⟨middle', greater, atSecond', atThird, le'⟩ := two
  rw [atSecond] at atSecond'
  cases atSecond'
  exact ⟨lesser, greater, atFirst, atThird, order.trans _ _ _ le le'⟩

theorem slotLe_trans (order : LeafOrder leafCmp) (first second third : Option L) :
    SlotLe leafCmp first second → SlotLe leafCmp second third → SlotLe leafCmp first third :=
  fun one two => one.trans order two

theorem slotLe_iff {first second : Option L} {lesser greater : L} (atFirst : first = some lesser)
    (atSecond : second = some greater) :
    SlotLe leafCmp first second ↔ leafCmp lesser greater ≤ 0 := by
  constructor
  · rintro ⟨_, _, here, there, le⟩
    rw [atFirst] at here
    rw [atSecond] at there
    cases here
    cases there
    exact le
  · intro le
    exact ⟨lesser, greater, atFirst, atSecond, le⟩

theorem fkHeapCreate_ordered (leafCmp : L → L → Int) :
    (fkHeapCreate : FkHeap L).Ordered leafCmp := by
  intro i least most
  change i ≤ 0 at most
  omega

instance (first second : Option L) : Decidable (SlotLe leafCmp first second) :=
  match first, second with
  | none, _ => isFalse (by rintro ⟨_, _, absent, _⟩; cases absent)
  | some _, none => isFalse (by rintro ⟨_, _, _, absent, _⟩; cases absent)
  | some lesser, some greater =>
      decidable_of_iff (leafCmp lesser greater ≤ 0) (slotLe_iff rfl rfl).symm

instance : DecidablePred (FkHeap.Ordered leafCmp) := fun hp =>
  decidable_of_iff (∀ i, i < hp.last + 1 → 2 ≤ i → SlotLe leafCmp (hp.tree (i / 2)) (hp.tree i)) (by
    constructor
    · intro bounded i least most
      exact bounded i (Nat.lt_succ_of_le most) least
    · intro ordered i most least
      exact ordered i least (Nat.le_of_lt_succ most))

namespace FkHeap

variable {hp : FkHeap L}

/-- The root of an ordered heap is minimal. -/
theorem Ordered.root_minimal (order : LeafOrder leafCmp) (wf : hp.Wf) (ordered : hp.Ordered leafCmp)
    {leaf : L} (holds : hp.Holds leaf) :
    ∃ root, fkHeapRoot hp = some root ∧ leafCmp root leaf ≤ 0 := by
  obtain ⟨i, least, most, here⟩ := wf.holds_iff.mp holds
  have reflexive : ∀ k, 1 ≤ k → k ≤ hp.last → SlotLe leafCmp (hp.tree k) (hp.tree k) := by
    intro k kLeast kMost
    obtain ⟨other, there, _⟩ := wf.filled k kLeast kMost
    exact ⟨other, other, there, there, order.refl other⟩
  obtain ⟨root, leaf', atRoot, atLeaf, le⟩ :=
    Lib.HeapOrder.Ordered.root_le (slotLe_trans order) ordered reflexive least most
  rw [here] at atLeaf
  cases atLeaf
  refine ⟨root, ?_, le⟩
  rw [fkHeapRoot, if_neg (by omega), atRoot]

/-- The chosen child is not greater than the other one. -/
theorem least_smallest (order : LeafOrder leafCmp) (wf : hp.Wf) {i j : Nat} {min : L}
    (positive : 1 ≤ i) (inner : i <<< 1 ≤ hp.last) (chosen : hp.least leafCmp i = some (min, j)) :
    ∀ k, 2 ≤ k → k ≤ hp.last → k / 2 = i → SlotLe leafCmp (some min) (hp.tree k) := by
  rw [Nat.shiftLeft_eq] at inner
  obtain ⟨left, atLeft, _⟩ := wf.filled (i * 2) (by omega) inner
  intro k least most isChild
  have sides : k = i * 2 ∨ k = i * 2 + 1 := by omega
  by_cases more : i * 2 + 1 ≤ hp.last
  · obtain ⟨right, atRight, _⟩ := wf.filled (i * 2 + 1) (by omega) more
    simp only [FkHeap.least, Nat.shiftLeft_eq, Nat.pow_one, atLeft, atRight, more, if_true,
      Option.bind_eq_bind, Option.bind_some] at chosen
    split at chosen
    · next greater =>
        cases chosen
        rcases sides with rfl | rfl
        · exact ⟨_, _, rfl, atLeft, order.of_pos greater⟩
        · exact ⟨_, _, rfl, atRight, order.refl _⟩
    · next notGreater =>
        cases chosen
        rcases sides with rfl | rfl
        · exact ⟨_, _, rfl, atLeft, order.refl _⟩
        · exact ⟨_, _, rfl, atRight, Int.not_lt.mp notGreater⟩
  · simp only [FkHeap.least, Nat.shiftLeft_eq, Nat.pow_one, atLeft, more, if_false,
      Option.bind_eq_bind, Option.bind_some] at chosen
    cases chosen
    rcases sides with rfl | rfl
    · exact ⟨_, _, rfl, atLeft, order.refl _⟩
    · exact (more most).elim

variable [DecidableEq L]

theorem siftDown_ordered (order : LeafOrder leafCmp) {fuel i : Nat} {after : FkHeap L} (wf : hp.Wf)
    (positive : 1 ≤ i) (enough : hp.last ≤ fuel + i)
    (down : OrderedDown (SlotLe leafCmp) hp.tree hp.last i)
    (sifted : siftDown leafCmp fuel hp i = some after) : after.Ordered leafCmp := by
  induction fuel generalizing hp i with
  | zero =>
      cases sifted
      exact down.done fun k _ most isChild => by omega
  | succ fuel ih =>
      rw [siftDown] at sifted
      split at sifted
      · next inner =>
          obtain ⟨min, j, chosen, atMin, jLeast, jMost, isChild⟩ :=
            least_isSome leafCmp wf positive inner
          have smallest := least_smallest order wf positive inner chosen
          have iMost : i ≤ hp.last := by omega
          obtain ⟨parent, atParent, _⟩ := wf.filled i positive iMost
          rw [atParent, chosen] at sifted
          dsimp only [Option.bind_eq_bind, Option.bind_some] at sifted
          split at sifted
          · next greater =>
              have step := Kept.put_put wf (by omega) positive iMost (by omega) jMost atParent atMin
              refine ih step.wf (by omega) ?_ ?_ sifted
              · rw [step.last]
                omega
              · rw [step.last, put_put_tree (by omega) atParent atMin]
                refine down.move jLeast jMost isChild ?_ ?_
                · exact ⟨min, parent, atMin, atParent, order.of_pos greater⟩
                · intro k least most child _
                  rw [atMin]
                  exact smallest k least most child
          · next notGreater =>
              rw [← Option.some.inj sifted]
              refine down.done fun k least most child => ?_
              have below : SlotLe leafCmp (hp.tree i) (some min) :=
                ⟨parent, min, atParent, rfl, Int.not_lt.mp notGreater⟩
              exact below.trans order (smallest k least most child)
      · next outer =>
          rw [← Option.some.inj sifted]
          rw [Nat.shiftLeft_eq] at outer
          exact down.done fun k _ most child => by omega

/-- A leaf that is not greater than its children stays. -/
theorem siftDown_stays {fuel i : Nat} (wf : hp.Wf) (positive : 1 ≤ i)
    (below : ∀ k, 2 ≤ k → k ≤ hp.last → k / 2 = i → SlotLe leafCmp (hp.tree i) (hp.tree k)) :
    siftDown leafCmp fuel hp i = some hp := by
  cases fuel with
  | zero => rfl
  | succ fuel =>
      rw [siftDown]
      split
      · next inner =>
          obtain ⟨min, j, chosen, atMin, jLeast, jMost, isChild⟩ :=
            least_isSome leafCmp wf positive inner
          obtain ⟨parent, atParent, _⟩ := wf.filled i positive (by omega)
          have le := (slotLe_iff atParent atMin).mp (below j jLeast jMost isChild)
          rw [atParent, chosen]
          dsimp only [Option.bind_eq_bind, Option.bind_some]
          rw [if_neg (by omega)]
      · rfl

theorem siftUp_ordered (order : LeafOrder leafCmp) {fuel i : Nat} {after : FkHeap L} (wf : hp.Wf)
    (positive : 1 ≤ i) (most : i ≤ hp.last) (enough : i ≤ fuel)
    (up : OrderedUp (SlotLe leafCmp) hp.tree hp.last i)
    (sifted : siftUp leafCmp fuel hp i = some after) : after.Ordered leafCmp := by
  induction fuel generalizing hp i with
  | zero => omega
  | succ fuel ih =>
      rw [siftUp, half_eq] at sifted
      split at sifted
      · next inner =>
          obtain ⟨leaf, atLeaf, _⟩ := wf.filled i positive most
          obtain ⟨parent, atParent, _⟩ := wf.filled (i / 2) inner (by omega)
          rw [atLeaf, atParent] at sifted
          dsimp only [Option.bind_eq_bind, Option.bind_some] at sifted
          split at sifted
          · next less =>
              have step := Kept.put_put wf (by omega) inner (by omega) positive most atParent atLeaf
              refine ih step.wf inner ?_ (by omega) ?_ sifted
              · rw [step.last]
                omega
              · rw [step.last, put_put_tree (by omega) atParent atLeaf]
                rw [exchange_comm]
                exact up.move (slotLe_trans order) (by omega) most
                  ⟨leaf, parent, atLeaf, atParent, Int.le_of_lt less⟩
          · next notLess =>
              rw [← Option.some.inj sifted]
              refine up.done fun _ => ?_
              exact ⟨parent, leaf, atParent, atLeaf, (order.swap parent leaf).mpr (by omega)⟩
      · next root =>
          rw [← Option.some.inj sifted]
          exact up.done fun inner => by omega

/-! ## The operations -/

theorem grown_orderedUp (wf : hp.Wf) (leaf : L) (ordered : hp.Ordered leafCmp) :
    OrderedUp (SlotLe leafCmp) (hp.grown leaf).tree (hp.grown leaf).last (hp.grown leaf).last := by
  rw [grown_last]
  constructor
  · intro i least most apart
    rw [grown_tree wf leaf most, grown_tree wf leaf (by omega), if_neg apart, if_neg (by omega)]
    exact ordered i least (by omega)
  · intro i _ most child
    omega

theorem push_ordered (order : LeafOrder leafCmp) (wf : hp.Wf)
    (ordered : hp.Ordered leafCmp) {leaf : L} (outside : ¬ hp.Holds leaf) :
    ∃ after, fkHeapPush leafCmp hp leaf = some after ∧ after.Wf ∧ after.Ordered leafCmp := by
  obtain ⟨after, sifted, pushed, kept⟩ := push_some leafCmp wf outside
  have positive : 1 ≤ (hp.grown leaf).last := by
    rw [grown_last]
    exact Nat.succ_pos _
  refine ⟨after, pushed, kept.wf, ?_⟩
  exact siftUp_ordered order (grown_wf wf outside) positive (Nat.le_refl _) (Nat.le_refl _)
    (grown_orderedUp wf leaf ordered) sifted

/-- The last leaf may stand below the parent of the removed one. -/
def RemoveFits (leafCmp : L → L → Int) (hp : FkHeap L) (leaf : L) : Prop :=
  hp.idx leaf = 1 ∨ SlotLe leafCmp (hp.tree (hp.idx leaf >>> 1)) (hp.tree hp.last)

instance (leaf : L) : Decidable (hp.RemoveFits leafCmp leaf) :=
  inferInstanceAs (Decidable (_ ∨ _))

theorem cut_orderedDown (order : LeafOrder leafCmp) (wf : hp.Wf) (ordered : hp.Ordered leafCmp)
    {leaf moved : L} (holds : hp.Holds leaf) (atLast : hp.tree hp.last = some moved)
    (fits : hp.RemoveFits leafCmp leaf) :
    OrderedDown (SlotLe leafCmp) (hp.cut leaf moved).tree (hp.last - 1) (hp.idx leaf) := by
  obtain ⟨leafMost, _⟩ := wf.placed leaf holds
  constructor
  · intro i least most apart
    rw [cut_tree (by omega), cut_tree (by omega), if_neg apart]
    split
    · next onLeaf =>
        rcases fits with root | below
        · omega
        · rwa [half_eq, ← onLeaf, atLast] at below
    · exact ordered i least (by omega)
  · intro i inner most child
    rw [cut_tree (by omega), cut_tree (by omega), if_neg (by omega), if_neg (by omega)]
    have upper := ordered (hp.idx leaf) inner leafMost
    have lower := ordered i (by omega) (by omega)
    rw [child] at lower
    exact upper.trans order lower

/-- If the last leaf is less than the parent, it stays where it is put. -/
theorem cut_unordered (order : LeafOrder leafCmp) (wf : hp.Wf) (ordered : hp.Ordered leafCmp)
    {leaf moved : L} {after : FkHeap L} (holds : hp.Holds leaf)
    (atLast : hp.tree hp.last = some moved) (clashes : ¬ hp.RemoveFits leafCmp leaf)
    (sifted : siftDown leafCmp (hp.last - 1) (hp.cut leaf moved) (hp.idx leaf) = some after) :
    ¬ after.Ordered leafCmp := by
  obtain ⟨leafMost, atLeaf⟩ := wf.placed leaf holds
  have nonzero : hp.idx leaf ≠ 0 := holds
  rw [RemoveFits, not_or, half_eq] at clashes
  obtain ⟨notRoot, notBelow⟩ := clashes
  obtain ⟨parent, atParent, _⟩ := wf.filled (hp.idx leaf / 2) (by omega) (by omega)
  rw [slotLe_iff atParent atLast] at notBelow
  have parentLe : SlotLe leafCmp (some moved) (some parent) :=
    ⟨moved, parent, rfl, rfl, order.of_pos (by omega)⟩
  have upper := ordered (hp.idx leaf) (by omega) leafMost
  have notLast : hp.idx leaf ≠ hp.last := by
    intro same
    rw [same, atLast, ← same] at upper
    exact notBelow ((slotLe_iff atParent rfl).mp upper)
  have movedHere : (hp.cut leaf moved).tree (hp.idx leaf) = some moved := by
    rw [cut_tree notLast, if_pos rfl]
  have stays : siftDown leafCmp (hp.last - 1) (hp.cut leaf moved) (hp.idx leaf) =
      some (hp.cut leaf moved) := by
    refine siftDown_stays (cut_wf wf holds atLast) (by omega) ?_
    intro k least most child
    change k ≤ hp.last - 1 at most
    rw [movedHere, cut_tree (by omega), if_neg (by omega)]
    have lower := ordered k least (by omega)
    rw [child] at lower
    rw [atParent] at upper
    exact (parentLe.trans order upper).trans order lower
  rw [stays] at sifted
  rw [← Option.some.inj sifted]
  intro orderedAfter
  have inside : hp.idx leaf ≤ (hp.cut leaf moved).last := by
    change hp.idx leaf ≤ hp.last - 1
    omega
  have edge := orderedAfter (hp.idx leaf) (by omega) inside
  rw [movedHere, cut_tree (by omega), if_neg (by omega)] at edge
  exact notBelow ((slotLe_iff atParent rfl).mp edge)

/-- Removal from an ordered heap leaves it ordered exactly when the last leaf fits. -/
theorem remove_ordered_iff (order : LeafOrder leafCmp) (wf : hp.Wf) (ordered : hp.Ordered leafCmp)
    {leaf : L} (holds : hp.Holds leaf) :
    ∃ after, fkHeapRemove leafCmp hp leaf = some after ∧ after.Wf ∧ after.last = hp.last - 1 ∧
      (after.Ordered leafCmp ↔ hp.RemoveFits leafCmp leaf) := by
  obtain ⟨moved, after, atLast, sifted, removed, kept⟩ := remove_some leafCmp wf holds
  have positive : 1 ≤ hp.idx leaf := Nat.one_le_iff_ne_zero.mpr holds
  refine ⟨after, removed, kept.wf, kept.last, ?_⟩
  constructor
  · intro orderedAfter
    by_contra clashes
    exact cut_unordered order wf ordered holds atLast clashes sifted orderedAfter
  · intro fits
    exact siftDown_ordered order (cut_wf wf holds atLast) positive (Nat.le_add_right _ _)
      (cut_orderedDown order wf ordered holds atLast fits) sifted

/-- Taking the root always keeps the order. -/
theorem pop_ordered (order : LeafOrder leafCmp) (wf : hp.Wf) (ordered : hp.Ordered leafCmp)
    (nonempty : 1 ≤ hp.last) :
    ∃ root after, fkHeapRoot hp = some root ∧ fkHeapPop leafCmp hp = some (some root, after) ∧
      after.Wf ∧ after.Ordered leafCmp ∧ after.last = hp.last - 1 := by
  obtain ⟨root, atRoot, rootIdx⟩ := wf.filled 1 (Nat.le_refl 1) nonempty
  have holds : hp.Holds root := by
    rw [Holds, rootIdx]
    decide
  obtain ⟨after, removed, afterWf, last, iff⟩ := remove_ordered_iff order wf ordered holds
  refine ⟨root, after, ?_, ?_, afterWf, iff.mpr (.inl rootIdx), last⟩
  · rw [fkHeapRoot, if_neg (by omega), atRoot]
  · rw [fkHeapPop, if_neg (by omega), atRoot]
    dsimp only [Option.bind_eq_bind, Option.bind_some]
    rw [removed]
    rfl

end FkHeap

end Freekick
