import Freekick.Event.Heap
import Freekick.Lib.HeapOrder

/-!
# Positions in the timer heap

Leaves and slots agree about positions before and after every operation, whatever
the comparison does; in particular no operation meets an empty slot.
-/

namespace Freekick

open Lib.HeapOrder

variable {L : Type}

/-! ## Coherent positions -/

/-- A position between one and `last` holds a leaf that knows it, and a leaf whose
position is not zero is there. -/
structure FkHeap.Wf (hp : FkHeap L) : Prop where
  fits : hp.last < hp.size
  filled : ∀ i, 1 ≤ i → i ≤ hp.last → ∃ leaf, hp.tree i = some leaf ∧ hp.idx leaf = i
  placed : ∀ leaf, hp.idx leaf ≠ 0 → hp.idx leaf ≤ hp.last ∧ hp.tree (hp.idx leaf) = some leaf

theorem fkHeapCreate_wf : (fkHeapCreate : FkHeap L).Wf where
  fits := Nat.succ_pos 63
  filled := fun _ least most => (Nat.not_succ_le_zero 0 (Nat.le_trans least most)).elim
  placed := fun _ nonzero => (nonzero rfl).elim

namespace FkHeap

variable {hp : FkHeap L}

theorem Wf.idx_of_tree (wf : hp.Wf) {i : Nat} {leaf : L} (least : 1 ≤ i) (most : i ≤ hp.last)
    (here : hp.tree i = some leaf) : hp.idx leaf = i := by
  obtain ⟨other, there, position⟩ := wf.filled i least most
  rw [here] at there
  cases there
  exact position

/-- A leaf is in one of the slots in use. -/
def Contains (hp : FkHeap L) (leaf : L) : Prop := ∃ i, 1 ≤ i ∧ i ≤ hp.last ∧ hp.tree i = some leaf

/-- A leaf has a position. -/
def Holds (hp : FkHeap L) (leaf : L) : Prop := hp.idx leaf ≠ 0

theorem Wf.holds_iff (wf : hp.Wf) {leaf : L} : hp.Holds leaf ↔ hp.Contains leaf := by
  constructor
  · intro nonzero
    obtain ⟨most, here⟩ := wf.placed leaf nonzero
    exact ⟨hp.idx leaf, Nat.one_le_iff_ne_zero.mpr nonzero, most, here⟩
  · rintro ⟨i, least, most, here⟩
    rw [Holds, wf.idx_of_tree least most here]
    omega

/-- What a sift keeps: positions stay coherent and the same leaves are there. -/
structure Kept (before after : FkHeap L) : Prop where
  wf : after.Wf
  last : after.last = before.last
  holds : ∀ leaf, after.Holds leaf ↔ before.Holds leaf

theorem Kept.refl (wf : hp.Wf) : Kept hp hp := ⟨wf, rfl, fun _ => Iff.rfl⟩

theorem Kept.trans {first second third : FkHeap L} (one : Kept first second)
    (two : Kept second third) :
    Kept first third :=
  ⟨two.wf, two.last.trans one.last, fun leaf => (two.holds leaf).trans (one.holds leaf)⟩

/-- The smaller child is a child. -/
theorem least_isSome (leafCmp : L → L → Int) (wf : hp.Wf) {i : Nat} (positive : 1 ≤ i)
    (inner : i <<< 1 ≤ hp.last) :
    ∃ min j, hp.least leafCmp i = some (min, j) ∧ hp.tree j = some min ∧ 2 ≤ j ∧ j ≤ hp.last ∧
      j / 2 = i := by
  rw [Nat.shiftLeft_eq] at inner
  obtain ⟨left, atLeft, _⟩ := wf.filled (i * 2) (by omega) inner
  by_cases more : i * 2 + 1 ≤ hp.last
  · obtain ⟨right, atRight, _⟩ := wf.filled (i * 2 + 1) (by omega) more
    by_cases greater : 0 < leafCmp left right
    · refine ⟨right, i * 2 + 1, ?_, atRight, by omega, more, by omega⟩
      simp [least, Nat.shiftLeft_eq, atLeft, atRight, more, greater]
    · refine ⟨left, i * 2, ?_, atLeft, by omega, inner, by omega⟩
      simp [least, Nat.shiftLeft_eq, atLeft, atRight, more, greater]
  · refine ⟨left, i * 2, ?_, atLeft, by omega, inner, by omega⟩
    simp [least, Nat.shiftLeft_eq, atLeft, more]

theorem half_eq (i : Nat) : i >>> 1 = i / 2 := by
  rw [Nat.shiftRight_eq_div_pow, Nat.pow_one]

variable [DecidableEq L]

/-- Two leaves that change places. -/
theorem put_put_tree {i j : Nat} {first second : L} (apart : i ≠ j)
    (atFirst : hp.tree i = some first) (atSecond : hp.tree j = some second) :
    ((hp.put i second).put j first).tree = exchange hp.tree i j := by
  funext k
  change Function.update (Function.update hp.tree i (some second)) j (some first) k = _
  unfold exchange
  by_cases onJ : k = j
  · subst onJ
    rw [Function.update_self, if_neg (Ne.symm apart), if_pos rfl, atFirst]
  · rw [Function.update_of_ne onJ]
    by_cases onI : k = i
    · subst onI
      rw [Function.update_self, if_pos rfl, atSecond]
    · rw [Function.update_of_ne onI, if_neg onI, if_neg onJ]

theorem Wf.put_put (wf : hp.Wf) {i j : Nat} {first second : L} (apart : i ≠ j)
    (iLeast : 1 ≤ i) (iMost : i ≤ hp.last) (jLeast : 1 ≤ j) (jMost : j ≤ hp.last)
    (atFirst : hp.tree i = some first) (atSecond : hp.tree j = some second) :
    ((hp.put i second).put j first).Wf := by
  have firstIdx := wf.idx_of_tree iLeast iMost atFirst
  have secondIdx := wf.idx_of_tree jLeast jMost atSecond
  have leavesApart : first ≠ second := by
    intro same
    rw [same, secondIdx] at firstIdx
    exact apart firstIdx.symm
  have idxFirst : ((hp.put i second).put j first).idx first = j := Function.update_self ..
  have idxSecond : ((hp.put i second).put j first).idx second = i := by
    change Function.update (Function.update hp.idx second i) first j second = i
    rw [Function.update_of_ne leavesApart.symm, Function.update_self]
  have idxOther : ∀ leaf, leaf ≠ first → leaf ≠ second →
      ((hp.put i second).put j first).idx leaf = hp.idx leaf := by
    intro leaf notFirst notSecond
    change Function.update (Function.update hp.idx second i) first j leaf = _
    rw [Function.update_of_ne notFirst, Function.update_of_ne notSecond]
  have tree := put_put_tree apart atFirst atSecond
  refine ⟨wf.fits, ?_, ?_⟩
  · intro k least most
    rw [tree]
    by_cases onI : k = i
    · subst onI
      rw [exchange_first]
      exact ⟨second, atSecond, idxSecond⟩
    · by_cases onJ : k = j
      · subst onJ
        rw [exchange_second]
        exact ⟨first, atFirst, idxFirst⟩
      · rw [exchange_other onI onJ]
        obtain ⟨leaf, here, position⟩ := wf.filled k least most
        refine ⟨leaf, here, ?_⟩
        rw [idxOther leaf ?_ ?_, position]
        · intro same
          rw [← position, same] at onI
          exact onI firstIdx
        · intro same
          rw [← position, same] at onJ
          exact onJ secondIdx
  · intro leaf nonzero
    rw [tree]
    by_cases isFirst : leaf = first
    · subst isFirst
      rw [idxFirst, exchange_second]
      exact ⟨jMost, atFirst⟩
    · by_cases isSecond : leaf = second
      · subst isSecond
        rw [idxSecond, exchange_first]
        exact ⟨iMost, atSecond⟩
      · rw [idxOther leaf isFirst isSecond] at nonzero ⊢
        obtain ⟨most, here⟩ := wf.placed leaf nonzero
        refine ⟨most, ?_⟩
        rw [exchange_other ?_ ?_, here]
        · intro same
          rw [same, atFirst] at here
          exact isFirst (Option.some.inj here).symm
        · intro same
          rw [same, atSecond] at here
          exact isSecond (Option.some.inj here).symm

theorem Kept.put_put (wf : hp.Wf) {i j : Nat} {first second : L} (apart : i ≠ j)
    (iLeast : 1 ≤ i) (iMost : i ≤ hp.last) (jLeast : 1 ≤ j) (jMost : j ≤ hp.last)
    (atFirst : hp.tree i = some first) (atSecond : hp.tree j = some second) :
    Kept hp ((hp.put i second).put j first) := by
  have changed := wf.put_put apart iLeast iMost jLeast jMost atFirst atSecond
  have tree := put_put_tree apart atFirst atSecond
  refine ⟨changed, rfl, fun leaf => ?_⟩
  rw [changed.holds_iff, wf.holds_iff]
  unfold Contains
  rw [tree]
  constructor
  · rintro ⟨k, least, most, here⟩
    by_cases onI : k = i
    · rw [onI, exchange_first] at here
      exact ⟨j, jLeast, jMost, here⟩
    · by_cases onJ : k = j
      · rw [onJ, exchange_second] at here
        exact ⟨i, iLeast, iMost, here⟩
      · rw [exchange_other onI onJ] at here
        exact ⟨k, least, most, here⟩
  · rintro ⟨k, least, most, here⟩
    by_cases onI : k = i
    · refine ⟨j, jLeast, jMost, ?_⟩
      rwa [exchange_second, ← onI]
    · by_cases onJ : k = j
      · refine ⟨i, iLeast, iMost, ?_⟩
        rwa [exchange_first, ← onJ]
      · refine ⟨k, least, most, ?_⟩
        rwa [exchange_other onI onJ]

theorem siftDown_kept (leafCmp : L → L → Int) (fuel : Nat) (wf : hp.Wf) {i : Nat}
    (positive : 1 ≤ i) :
    ∃ after, siftDown leafCmp fuel hp i = some after ∧ Kept hp after := by
  induction fuel generalizing hp i with
  | zero => exact ⟨hp, rfl, .refl wf⟩
  | succ fuel ih =>
      rw [siftDown]
      split
      · next inner =>
          obtain ⟨min, j, chosen, atMin, jLeast, jMost, isChild⟩ :=
            least_isSome leafCmp wf positive inner
          have iMost : i ≤ hp.last := by omega
          obtain ⟨parent, atParent, _⟩ := wf.filled i positive iMost
          rw [atParent, chosen]
          dsimp only [Option.bind_eq_bind, Option.bind_some]
          split
          · have step := Kept.put_put wf (by omega) positive iMost (by omega) jMost atParent atMin
            obtain ⟨after, sifted, kept⟩ := ih step.wf (show 1 ≤ j by omega)
            exact ⟨after, sifted, step.trans kept⟩
          · exact ⟨hp, rfl, .refl wf⟩
      · exact ⟨hp, rfl, .refl wf⟩

theorem siftUp_kept (leafCmp : L → L → Int) (fuel : Nat) (wf : hp.Wf) {i : Nat} (positive : 1 ≤ i)
    (most : i ≤ hp.last) : ∃ after, siftUp leafCmp fuel hp i = some after ∧ Kept hp after := by
  induction fuel generalizing hp i with
  | zero => exact ⟨hp, rfl, .refl wf⟩
  | succ fuel ih =>
      rw [siftUp, half_eq]
      split
      · next inner =>
          obtain ⟨leaf, atLeaf, _⟩ := wf.filled i positive most
          obtain ⟨parent, atParent, _⟩ := wf.filled (i / 2) inner (by omega)
          rw [atLeaf, atParent]
          dsimp only [Option.bind_eq_bind, Option.bind_some]
          split
          · have step := Kept.put_put wf (by omega) inner (by omega) positive most atParent atLeaf
            obtain ⟨after, sifted, kept⟩ := ih step.wf inner (show i / 2 ≤ hp.last by omega)
            exact ⟨after, sifted, step.trans kept⟩
          · exact ⟨hp, rfl, .refl wf⟩
      · exact ⟨hp, rfl, .refl wf⟩

/-! ## Removal and insertion -/

theorem cut_tree {leaf moved : L} {k : Nat} (inside : k ≠ hp.last) :
    (hp.cut leaf moved).tree k = if k = hp.idx leaf then some moved else hp.tree k := by
  change Function.update (Function.update hp.tree (hp.idx leaf) (some moved)) hp.last none k = _
  rw [Function.update_of_ne inside]
  split
  · next same => rw [same, Function.update_self]
  · next apart => rw [Function.update_of_ne apart]

theorem cut_idx_leaf (leaf moved : L) : (hp.cut leaf moved).idx leaf = 0 := Function.update_self ..

theorem cut_idx_moved {leaf moved : L} (apart : moved ≠ leaf) :
    (hp.cut leaf moved).idx moved = hp.idx leaf := by
  change Function.update (Function.update hp.idx moved (hp.idx leaf)) leaf 0 moved = _
  rw [Function.update_of_ne apart, Function.update_self]

theorem cut_idx_other {leaf moved other : L} (notLeaf : other ≠ leaf) (notMoved : other ≠ moved) :
    (hp.cut leaf moved).idx other = hp.idx other := by
  change Function.update (Function.update hp.idx moved (hp.idx leaf)) leaf 0 other = _
  rw [Function.update_of_ne notLeaf, Function.update_of_ne notMoved]

theorem cut_wf (wf : hp.Wf) {leaf moved : L} (holds : hp.Holds leaf)
    (atLast : hp.tree hp.last = some moved) : (hp.cut leaf moved).Wf := by
  obtain ⟨leafMost, atLeaf⟩ := wf.placed leaf holds
  have leafLeast : 1 ≤ hp.idx leaf := Nat.one_le_iff_ne_zero.mpr holds
  have movedIdx := wf.idx_of_tree (Nat.le_trans leafLeast leafMost) (Nat.le_refl _) atLast
  refine ⟨Nat.lt_of_le_of_lt (Nat.sub_le _ _) wf.fits, ?_, ?_⟩
  · intro k least most
    change k ≤ hp.last - 1 at most
    rw [cut_tree (by omega)]
    by_cases onLeaf : k = hp.idx leaf
    · rw [if_pos onLeaf]
      refine ⟨moved, rfl, ?_⟩
      rw [cut_idx_moved, onLeaf]
      intro same
      rw [same] at movedIdx
      omega
    · rw [if_neg onLeaf]
      obtain ⟨other, here, position⟩ := wf.filled k least (by omega)
      refine ⟨other, here, ?_⟩
      rw [cut_idx_other, position]
      · intro same
        rw [same] at position
        exact onLeaf position.symm
      · intro same
        rw [same] at position
        omega
  · intro other nonzero
    by_cases isLeaf : other = leaf
    · rw [isLeaf, cut_idx_leaf] at nonzero
      exact (nonzero rfl).elim
    · by_cases isMoved : other = moved
      · subst isMoved
        have leafNotLast : hp.idx leaf ≠ hp.last := by
          intro same
          rw [same, atLast] at atLeaf
          exact isLeaf (Option.some.inj atLeaf)
        rw [cut_idx_moved isLeaf, cut_tree leafNotLast, if_pos rfl]
        refine ⟨?_, rfl⟩
        change hp.idx leaf ≤ hp.last - 1
        omega
      · rw [cut_idx_other isLeaf isMoved] at nonzero ⊢
        obtain ⟨most, here⟩ := wf.placed other nonzero
        have notLast : hp.idx other ≠ hp.last := by
          intro same
          rw [same, atLast] at here
          exact isMoved (Option.some.inj here).symm
        have notLeaf : hp.idx other ≠ hp.idx leaf := by
          intro same
          rw [same, atLeaf] at here
          exact isLeaf (Option.some.inj here).symm
        rw [cut_tree notLast, if_neg notLeaf]
        refine ⟨?_, here⟩
        change hp.idx other ≤ hp.last - 1
        omega

/-- A leaf in the heap is removed. -/
theorem remove_some (leafCmp : L → L → Int) (wf : hp.Wf) {leaf : L} (holds : hp.Holds leaf) :
    ∃ moved after, hp.tree hp.last = some moved ∧
      siftDown leafCmp (hp.last - 1) (hp.cut leaf moved) (hp.idx leaf) = some after ∧
      fkHeapRemove leafCmp hp leaf = some after ∧ Kept (hp.cut leaf moved) after := by
  obtain ⟨most, _⟩ := wf.placed leaf holds
  have least : 1 ≤ hp.idx leaf := Nat.one_le_iff_ne_zero.mpr holds
  obtain ⟨moved, atLast, _⟩ := wf.filled hp.last (Nat.le_trans least most) (Nat.le_refl _)
  obtain ⟨after, sifted, kept⟩ := siftDown_kept leafCmp (hp.last - 1) (cut_wf wf holds atLast) least
  refine ⟨moved, after, atLast, sifted, ?_, kept⟩
  rw [fkHeapRemove, if_neg (by omega), atLast]
  exact sifted

/-- The heap that `fk_heap_push` sifts: one leaf more at the end. -/
def grown (hp : FkHeap L) (leaf : L) : FkHeap L :=
  let roomy := if hp.last = hp.size - 1 then fkHeapStretch hp else hp
  ({ roomy with last := roomy.last + 1 } : FkHeap L).put (roomy.last + 1) leaf

theorem grown_last (hp : FkHeap L) (leaf : L) : (hp.grown leaf).last = hp.last + 1 := by
  unfold grown
  dsimp only
  split <;> rfl

theorem grown_idx (hp : FkHeap L) (leaf : L) :
    (hp.grown leaf).idx = Function.update hp.idx leaf (hp.last + 1) := by
  unfold grown
  dsimp only
  split <;> rfl

theorem grown_tree (wf : hp.Wf) (leaf : L) {k : Nat} (most : k ≤ hp.last + 1) :
    (hp.grown leaf).tree k = if k = hp.last + 1 then some leaf else hp.tree k := by
  have fits := wf.fits
  unfold grown
  dsimp only
  split
  · next full =>
      change Function.update (fkHeapStretch hp).tree (hp.last + 1) (some leaf) k = _
      split
      · next atEnd => rw [atEnd, Function.update_self]
      · next inner =>
          rw [Function.update_of_ne inner]
          exact if_neg (by omega)
  · change Function.update hp.tree (hp.last + 1) (some leaf) k = _
    split
    · next atEnd => rw [atEnd, Function.update_self]
    · next inner => rw [Function.update_of_ne inner]

theorem grown_wf (wf : hp.Wf) {leaf : L} (outside : ¬ hp.Holds leaf) : (hp.grown leaf).Wf := by
  have fits := wf.fits
  refine ⟨?_, ?_, ?_⟩
  · rw [grown_last]
    unfold grown
    dsimp only
    split
    · next full =>
        change hp.last + 1 < hp.size <<< 1
        rw [Nat.shiftLeft_eq]
        omega
    · change hp.last + 1 < hp.size
      omega
  · intro k least most
    rw [grown_last] at most
    rw [grown_tree wf leaf most, grown_idx]
    split
    · next atEnd => exact ⟨leaf, rfl, by rw [Function.update_self, atEnd]⟩
    · next inner =>
        obtain ⟨other, here, position⟩ := wf.filled k least (by omega)
        refine ⟨other, here, ?_⟩
        rw [Function.update_of_ne, position]
        intro same
        rw [same] at position
        exact outside (by rw [Holds, position]; omega)
  · intro other nonzero
    rw [grown_idx] at nonzero ⊢
    rw [grown_last]
    by_cases isLeaf : other = leaf
    · rw [isLeaf, Function.update_self, grown_tree wf leaf (Nat.le_refl _), if_pos rfl]
      exact ⟨Nat.le_refl _, rfl⟩
    · rw [Function.update_of_ne isLeaf] at nonzero ⊢
      obtain ⟨most, here⟩ := wf.placed other nonzero
      rw [grown_tree wf leaf (by omega), if_neg (by omega)]
      exact ⟨by omega, here⟩

/-- A leaf outside of the heap is added. -/
theorem push_some (leafCmp : L → L → Int) (wf : hp.Wf) {leaf : L} (outside : ¬ hp.Holds leaf) :
    ∃ after, siftUp leafCmp (hp.grown leaf).last (hp.grown leaf) (hp.grown leaf).last = some after ∧
      fkHeapPush leafCmp hp leaf = some after ∧ Kept (hp.grown leaf) after := by
  have positive : 1 ≤ (hp.grown leaf).last := by
    rw [grown_last]
    exact Nat.succ_pos _
  obtain ⟨after, sifted, kept⟩ := siftUp_kept leafCmp (hp.grown leaf).last (grown_wf wf outside)
    positive (Nat.le_refl _)
  exact ⟨after, sifted, sifted, kept⟩

end FkHeap

end Freekick
