import Freekick.Event.Timer
import Freekick.Lib.Steps

/-!
# The leaves of the timer heap over whole runs

A leaf that was never pushed may carry any position.  The operations read the position
of the leaf they remove only, so a heap with such leaves goes along with one in which
every leaf outside of the heap has position zero.
-/

namespace Freekick

open Lib.HeapOrder Lib.Steps

variable {L : Type} {leafCmp : L → L → Int}

namespace FkHeap

/-- Two heaps that differ at most in the positions of leaves that are not known. -/
structure Alike (known : L → Prop) (hp clean : FkHeap L) : Prop where
  size : hp.size = clean.size
  last : hp.last = clean.last
  tree : hp.tree = clean.tree
  idx : ∀ leaf, known leaf → hp.idx leaf = clean.idx leaf

variable {known : L → Prop} {hp clean : FkHeap L}

theorem Alike.contains_iff (alike : Alike known hp clean) (leaf : L) : hp.Contains leaf ↔
    clean.Contains leaf := by
  simp only [Contains, alike.last, alike.tree]

theorem Alike.least_eq (alike : Alike known hp clean) (i : Nat) :
    hp.least leafCmp i = clean.least leafCmp i := by
  simp only [least, alike.last, alike.tree]

theorem Alike.weaken {fewer : L → Prop} (alike : Alike known hp clean)
    (less : ∀ leaf, fewer leaf → known leaf) :
    Alike fewer hp clean :=
  ⟨alike.size, alike.last, alike.tree, fun leaf member => alike.idx leaf (less leaf member)⟩

variable [DecidableEq L]

theorem Alike.put (alike : Alike known hp clean) (i : Nat) (leaf : L) :
    Alike (fun other => other = leaf ∨ known other) (hp.put i leaf) (clean.put i leaf) where
  size := alike.size
  last := alike.last
  tree := by simp only [FkHeap.put, alike.tree]
  idx := by
    intro other either
    change Function.update hp.idx leaf i other = Function.update clean.idx leaf i other
    by_cases same : other = leaf
    · rw [same, Function.update_self, Function.update_self]
    · rw [Function.update_of_ne same, Function.update_of_ne same]
      exact alike.idx other (either.resolve_left same)

theorem Alike.put_put (alike : Alike known hp clean) (i j : Nat) (first second : L) :
    Alike known ((hp.put i first).put j second) ((clean.put i first).put j second) :=
  ((alike.put i first).put j second).weaken fun _ member => .inr (.inr member)

theorem siftDown_alike {fuel i : Nat} {after : FkHeap L} (alike : Alike known hp clean)
    (sifted : siftDown leafCmp fuel clean i = some after) :
    ∃ real, siftDown leafCmp fuel hp i = some real ∧ Alike known real after := by
  induction fuel generalizing hp clean i with
  | zero =>
      cases sifted
      exact ⟨hp, rfl, alike⟩
  | succ fuel ih =>
      rw [siftDown] at sifted ⊢
      rw [alike.last, alike.least_eq, alike.tree]
      split at sifted
      · next inner =>
          rw [if_pos inner]
          obtain ⟨parent, atParent, rest⟩ := Option.bind_eq_some_iff.mp sifted
          obtain ⟨⟨min, j⟩, chosen, rest⟩ := Option.bind_eq_some_iff.mp rest
          rw [atParent, chosen]
          dsimp only [Option.bind_eq_bind, Option.bind_some] at rest ⊢
          split at rest
          · next greater =>
              rw [if_pos greater]
              exact ih (alike.put_put i j min parent) rest
          · next notGreater =>
              rw [if_neg notGreater]
              cases rest
              exact ⟨hp, rfl, alike⟩
      · next outer =>
          rw [if_neg outer]
          cases sifted
          exact ⟨hp, rfl, alike⟩

theorem siftUp_alike {fuel i : Nat} {after : FkHeap L} (alike : Alike known hp clean)
    (sifted : siftUp leafCmp fuel clean i = some after) :
    ∃ real, siftUp leafCmp fuel hp i = some real ∧ Alike known real after := by
  induction fuel generalizing hp clean i with
  | zero =>
      cases sifted
      exact ⟨hp, rfl, alike⟩
  | succ fuel ih =>
      rw [siftUp] at sifted ⊢
      rw [alike.tree]
      split at sifted
      · next inner =>
          rw [if_pos inner]
          obtain ⟨leaf, atLeaf, rest⟩ := Option.bind_eq_some_iff.mp sifted
          obtain ⟨parent, atParent, rest⟩ := Option.bind_eq_some_iff.mp rest
          rw [atLeaf, atParent]
          dsimp only [Option.bind_eq_bind, Option.bind_some] at rest ⊢
          split at rest
          · next less =>
              rw [if_pos less]
              exact ih (alike.put_put (i >>> 1) i leaf parent) rest
          · next notLess =>
              rw [if_neg notLess]
              cases rest
              exact ⟨hp, rfl, alike⟩
      · next root =>
          rw [if_neg root]
          cases sifted
          exact ⟨hp, rfl, alike⟩

/-! ## Slots above the last one -/

def Trimmed (hp : FkHeap L) : Prop := ∀ i, hp.last < i → hp.tree i = none

theorem Trimmed.put (trimmed : hp.Trimmed) {i : Nat} (most : i ≤ hp.last) (leaf : L) :
    (hp.put i leaf).Trimmed := by
  intro k above
  change hp.last < k at above
  change Function.update hp.tree i (some leaf) k = none
  rw [Function.update_of_ne (by omega), trimmed k above]

theorem siftDown_trimmed {fuel i : Nat} {after : FkHeap L} (wf : hp.Wf) (trimmed : hp.Trimmed)
    (positive : 1 ≤ i) (sifted : siftDown leafCmp fuel hp i = some after) : after.Trimmed := by
  induction fuel generalizing hp i with
  | zero =>
      cases sifted
      exact trimmed
  | succ fuel ih =>
      rw [siftDown] at sifted
      split at sifted
      · next inner =>
          obtain ⟨min, j, chosen, atMin, jLeast, jMost, isChild⟩ :=
            least_isSome leafCmp wf positive inner
          have iMost : i ≤ hp.last := by omega
          obtain ⟨parent, atParent, _⟩ := wf.filled i positive iMost
          rw [atParent, chosen] at sifted
          dsimp only [Option.bind_eq_bind, Option.bind_some] at sifted
          split at sifted
          · have moved := wf.put_put (by omega) positive iMost (by omega) jMost atParent atMin
            exact ih moved ((trimmed.put iMost min).put jMost parent) (by omega) sifted
          · cases sifted
            exact trimmed
      · cases sifted
        exact trimmed

theorem siftUp_trimmed {fuel i : Nat} {after : FkHeap L} (wf : hp.Wf) (trimmed : hp.Trimmed)
    (positive : 1 ≤ i) (most : i ≤ hp.last) (sifted : siftUp leafCmp fuel hp i = some after) :
    after.Trimmed := by
  induction fuel generalizing hp i with
  | zero =>
      cases sifted
      exact trimmed
  | succ fuel ih =>
      rw [siftUp, half_eq] at sifted
      split at sifted
      · next inner =>
          obtain ⟨leaf, atLeaf, _⟩ := wf.filled i positive most
          obtain ⟨parent, atParent, _⟩ := wf.filled (i / 2) inner (by omega)
          rw [atLeaf, atParent] at sifted
          dsimp only [Option.bind_eq_bind, Option.bind_some] at sifted
          split at sifted
          · have moved := wf.put_put (by omega) inner (by omega) positive most atParent atLeaf
            have halfMost : i / 2 ≤ hp.last := by omega
            exact ih moved ((trimmed.put halfMost leaf).put most parent) inner halfMost sifted
          · cases sifted
            exact trimmed
      · cases sifted
        exact trimmed

/-! ## One leaf less, one leaf more -/

theorem Alike.cut (alike : Alike known hp clean) {leaf : L} (member : known leaf) (moved : L) :
    Alike (fun other => other = leaf ∨ known other) (hp.cut leaf moved) (clean.cut leaf moved) where
  size := alike.size
  last := congrArg (· - 1) alike.last
  tree := by simp only [FkHeap.cut, FkHeap.put, alike.tree, alike.last, alike.idx leaf member]
  idx := by
    intro other either
    change Function.update (Function.update hp.idx moved (hp.idx leaf)) leaf 0 other =
      Function.update (Function.update clean.idx moved (clean.idx leaf)) leaf 0 other
    by_cases same : other = leaf
    · rw [same, Function.update_self, Function.update_self]
    · rw [Function.update_of_ne same, Function.update_of_ne same, alike.idx leaf member]
      by_cases isMoved : other = moved
      · rw [isMoved, Function.update_self, Function.update_self]
      · rw [Function.update_of_ne isMoved, Function.update_of_ne isMoved]
        exact alike.idx other (either.resolve_left same)

theorem Alike.grown (alike : Alike known hp clean) (leaf : L) :
    Alike (fun other => other = leaf ∨ known other) (hp.grown leaf) (clean.grown leaf) := by
  have size := alike.size
  have last := alike.last
  have tree := alike.tree
  unfold FkHeap.grown
  dsimp only
  rw [last, size]
  have roomy : Alike known (if clean.last = clean.size - 1 then fkHeapStretch hp else hp)
      (if clean.last = clean.size - 1 then fkHeapStretch clean else clean) := by
    split
    · exact ⟨by simp only [fkHeapStretch, size], last,
        by simp only [fkHeapStretch, size, tree], alike.idx⟩
    · exact alike
  generalize (if clean.last = clean.size - 1 then fkHeapStretch hp else hp) = first at roomy ⊢
  generalize (if clean.last = clean.size - 1 then fkHeapStretch clean else clean) =
    second at roomy ⊢
  rw [roomy.last]
  have longer : Alike known { first with last := second.last + 1 }
      { second with last := second.last + 1 } :=
    ⟨roomy.size, rfl, roomy.tree, roomy.idx⟩
  exact longer.put (second.last + 1) leaf

theorem cut_trimmed (wf : hp.Wf) (trimmed : hp.Trimmed) {leaf : L} (holds : hp.Holds leaf)
    (moved : L) :
    (hp.cut leaf moved).Trimmed := by
  obtain ⟨most, _⟩ := wf.placed leaf holds
  intro k above
  change hp.last - 1 < k at above
  by_cases atLast : k = hp.last
  · subst atLast
    exact Function.update_self ..
  · rw [cut_tree atLast, if_neg (by omega), trimmed k (by omega)]

theorem grown_trimmed (trimmed : hp.Trimmed) (leaf : L) : (hp.grown leaf).Trimmed := by
  intro k above
  rw [grown_last] at above
  have empty := trimmed k (by omega)
  unfold grown
  dsimp only
  split
  · change Function.update (fkHeapStretch hp).tree (hp.last + 1) (some leaf) k = none
    rw [Function.update_of_ne (by omega)]
    simp only [fkHeapStretch, empty, ite_self]
  · change Function.update hp.tree (hp.last + 1) (some leaf) k = none
    rw [Function.update_of_ne (by omega), empty]

theorem cut_holds_iff (wf : hp.Wf) {leaf moved : L} (holds : hp.Holds leaf)
    (atLast : hp.tree hp.last = some moved) (other : L) : (hp.cut leaf moved).Holds other ↔
    other ≠ leaf ∧ hp.Holds other := by
  have nonzero : hp.idx leaf ≠ 0 := holds
  obtain ⟨most, _⟩ := wf.placed leaf holds
  unfold Holds
  by_cases isLeaf : other = leaf
  · rw [isLeaf, cut_idx_leaf]
    exact iff_of_false (fun absurd => absurd rfl) fun both => both.1 rfl
  · rw [and_iff_right isLeaf]
    by_cases isMoved : other = moved
    · subst isMoved
      rw [cut_idx_moved isLeaf, wf.idx_of_tree (by omega) (Nat.le_refl _) atLast]
      exact iff_of_true nonzero (by omega)
    · rw [cut_idx_other isLeaf isMoved]

theorem grown_holds_iff (leaf other : L) : (hp.grown leaf).Holds other ↔ other = leaf ∨
    hp.Holds other := by
  unfold Holds
  rw [grown_idx]
  by_cases isLeaf : other = leaf
  · rw [isLeaf, Function.update_self]
    exact iff_of_true (Nat.succ_ne_zero _) (.inl rfl)
  · rw [Function.update_of_ne isLeaf]
    exact ⟨.inr, fun either => either.resolve_left isLeaf⟩

end FkHeap

/-! ## Runs -/

/-- What became of a leaf so far. -/
inductive Standing where
  | fresh
  | inside
  | gone
  deriving DecidableEq, Repr

/-- Leaves that are not in the heap may be pushed, and leaves in the heap or with position
zero may be removed. -/
def HeapOp.Admitted (hp : FkHeap L) : HeapOp L → Prop
  | .push leaf => ¬ hp.Contains leaf
  | .pop => True
  | .remove leaf => hp.Contains leaf ∨ hp.idx leaf = 0

/-- A heap in the course of a run: positions, slots and the leaves that should be in it. -/
structure FkHeap.Coherent (hp : FkHeap L) (book : L → Standing) : Prop where
  fits : hp.last < hp.size
  filled : ∀ i, 1 ≤ i → i ≤ hp.last → ∃ leaf, hp.tree i = some leaf ∧ hp.idx leaf = i
  distinct : ∀ i j, 1 ≤ i → i ≤ hp.last → 1 ≤ j → j ≤ hp.last → hp.tree i = hp.tree j → i = j
  trimmed : ∀ i, hp.last < i → hp.tree i = none
  inside : ∀ leaf, hp.Contains leaf ↔ book leaf = .inside
  gone : ∀ leaf, book leaf = .gone → hp.idx leaf = 0

/-- The invariant of a run: a heap in which every leaf outside has position zero. -/
def FkHeap.Backed (hp : FkHeap L) (book : L → Standing) : Prop :=
  ∃ clean : FkHeap L, clean.Wf ∧ clean.Trimmed ∧
    FkHeap.Alike (fun leaf => book leaf ≠ .fresh) hp clean ∧
    ∀ leaf, clean.Holds leaf ↔ book leaf = .inside

theorem FkHeap.Backed.coherent {hp : FkHeap L} {book : L → Standing} (backed : hp.Backed book) :
    hp.Coherent book := by
  obtain ⟨clean, wf, trimmed, alike, holds⟩ := backed
  have inside : ∀ leaf, hp.Contains leaf ↔ book leaf = .inside := by
    intro leaf
    rw [alike.contains_iff, ← wf.holds_iff, holds]
  have filled : ∀ i, 1 ≤ i → i ≤ hp.last → ∃ leaf, hp.tree i = some leaf ∧ hp.idx leaf = i := by
    intro i least most
    obtain ⟨leaf, here, position⟩ := wf.filled i least (alike.last ▸ most)
    rw [← alike.tree] at here
    refine ⟨leaf, here, ?_⟩
    rw [alike.idx, position]
    rw [(inside leaf).mp ⟨i, least, most, here⟩]
    decide
  refine ⟨?_, filled, ?_, ?_, inside, ?_⟩
  · rw [alike.last, alike.size]
    exact wf.fits
  · intro i j iLeast iMost jLeast jMost same
    obtain ⟨leaf, atI, position⟩ := filled i iLeast iMost
    obtain ⟨other, atJ, otherPosition⟩ := filled j jLeast jMost
    rw [atI, atJ, Option.some.injEq] at same
    rw [← position, ← otherPosition, same]
  · intro i above
    rw [alike.tree]
    exact trimmed i (alike.last ▸ above)
  · intro leaf gone
    have outside : ¬ clean.Holds leaf := by
      rw [holds, gone]
      decide
    rw [alike.idx leaf (by rw [gone]; decide)]
    exact Classical.not_not.mp outside

theorem FkHeap.Backed.create (idx : L → Nat) :
    ({ fkHeapCreate with idx := idx } : FkHeap L).Backed fun _ => .fresh := by
  refine ⟨fkHeapCreate, fkHeapCreate_wf, fun _ _ => rfl,
    ⟨rfl, rfl, rfl, fun leaf known => (known rfl).elim⟩, fun leaf => ?_⟩
  exact iff_of_false (fun holds => holds rfl) fun same => nomatch same

variable [DecidableEq L]

/-- The leaf that an operation puts in or takes out. -/
def bookStep (leafCmp : L → L → Int) (book : L → Standing) (hp : FkHeap L) : HeapOp L → L → Standing
  | .push leaf => Function.update book leaf .inside
  | .pop =>
      match fkHeapPop leafCmp hp with
      | some (some root, _) => Function.update book root .gone
      | _ => book
  | .remove leaf => Function.update book leaf .gone

namespace FkHeap.Backed

variable {hp : FkHeap L} {book : L → Standing} {leaf : L}

theorem push (leafCmp : L → L → Int) (backed : hp.Backed book) (outside : ¬ hp.Contains leaf) :
    ∃ next, fkHeapPush leafCmp hp leaf = some next ∧
      next.Backed (Function.update book leaf .inside) := by
  obtain ⟨clean, wf, trimmed, alike, holds⟩ := backed
  have notHeld : ¬ clean.Holds leaf := by
    rwa [wf.holds_iff, ← alike.contains_iff]
  obtain ⟨after, sifted, _, kept⟩ := FkHeap.push_some leafCmp wf notHeld
  have grown := FkHeap.grown_wf wf notHeld
  have grownAlike := alike.grown leaf
  obtain ⟨real, pushed, realAlike⟩ := FkHeap.siftUp_alike grownAlike sifted
  have positive : 1 ≤ (clean.grown leaf).last := by
    rw [FkHeap.grown_last]
    exact Nat.succ_pos _
  rw [← grownAlike.last] at pushed
  refine ⟨real, pushed, after, kept.wf, ?_, realAlike.weaken fun other known => ?_, fun other => ?_⟩
  · exact FkHeap.siftUp_trimmed grown (FkHeap.grown_trimmed trimmed leaf) positive
      (Nat.le_refl _) sifted
  · by_cases isLeaf : other = leaf
    · exact .inl isLeaf
    · rw [Function.update_of_ne isLeaf] at known
      exact .inr known
  · rw [kept.holds, FkHeap.grown_holds_iff]
    by_cases isLeaf : other = leaf
    · rw [isLeaf, Function.update_self]
      exact iff_of_true (.inl rfl) rfl
    · rw [Function.update_of_ne isLeaf, ← holds]
      exact ⟨fun either => either.resolve_left isLeaf, .inr⟩

theorem remove (leafCmp : L → L → Int) (backed : hp.Backed book) (contained : hp.Contains leaf) :
    ∃ next, fkHeapRemove leafCmp hp leaf = some next ∧
      next.Backed (Function.update book leaf .gone) := by
  have member := (backed.coherent.inside leaf).mp contained
  obtain ⟨clean, wf, trimmed, alike, holds⟩ := backed
  have held : clean.Holds leaf := (holds leaf).mpr member
  have known : book leaf ≠ .fresh := by
    rw [member]
    decide
  have sameIdx := alike.idx leaf known
  obtain ⟨moved, after, atLast, sifted, removed, kept⟩ := FkHeap.remove_some leafCmp wf held
  have cutWf := FkHeap.cut_wf wf held atLast
  have least : 1 ≤ clean.idx leaf := Nat.one_le_iff_ne_zero.mpr held
  obtain ⟨real, went, realAlike⟩ := FkHeap.siftDown_alike (alike.cut known moved) sifted
  refine ⟨real, ?_, after, kept.wf, ?_, realAlike.weaken fun other fresh => ?_, fun other => ?_⟩
  · obtain ⟨most, _⟩ := wf.placed leaf held
    rw [fkHeapRemove, sameIdx, alike.last, alike.tree, if_neg (by omega), atLast]
    exact went
  · exact FkHeap.siftDown_trimmed cutWf (FkHeap.cut_trimmed wf trimmed held moved) least sifted
  · by_cases isLeaf : other = leaf
    · exact .inl isLeaf
    · rw [Function.update_of_ne isLeaf] at fresh
      exact .inr fresh
  · rw [kept.holds, FkHeap.cut_holds_iff wf held atLast]
    by_cases isLeaf : other = leaf
    · rw [isLeaf, Function.update_self]
      exact iff_of_false (fun both => both.1 rfl) (by decide)
    · rw [Function.update_of_ne isLeaf, ← holds]
      exact and_iff_right isLeaf

/-- A leaf with position zero is not in the heap, and removing it changes nothing. -/
theorem remove_outside (leafCmp : L → L → Int) (backed : hp.Backed book) (zero : hp.idx leaf = 0) :
    fkHeapRemove leafCmp hp leaf = some hp ∧ hp.Backed (Function.update book leaf .gone) := by
  have coherent := backed.coherent
  obtain ⟨clean, wf, trimmed, alike, holds⟩ := backed
  have outside : book leaf ≠ .inside := by
    intro member
    obtain ⟨i, least, most, here⟩ := (coherent.inside leaf).mpr member
    obtain ⟨other, there, position⟩ := coherent.filled i least most
    rw [here] at there
    cases there
    omega
  refine ⟨if_pos (by omega), clean, wf, trimmed,
    ⟨alike.size, alike.last, alike.tree, fun other known => ?_⟩, fun other => ?_⟩
  · by_cases isLeaf : other = leaf
    · have notHeld : ¬ clean.Holds leaf := (holds leaf).not.mpr outside
      rw [isLeaf, zero, Classical.not_not.mp notHeld]
    · rw [Function.update_of_ne isLeaf] at known
      exact alike.idx other known
  · by_cases isLeaf : other = leaf
    · rw [isLeaf, Function.update_self, holds]
      exact iff_of_false outside (by decide)
    · rw [Function.update_of_ne isLeaf, holds]

theorem pop (leafCmp : L → L → Int) (backed : hp.Backed book) :
    ∃ root next, fkHeapPop leafCmp hp = some (root, next) ∧
      next.Backed (match root with
        | some leaf => Function.update book leaf .gone
        | none => book) := by
  by_cases empty : hp.last < 1
  · exact ⟨none, hp, if_pos empty, backed⟩
  · obtain ⟨root, atRoot, _⟩ := backed.coherent.filled 1 (Nat.le_refl 1) (by omega)
    obtain ⟨next, removed, kept⟩ := backed.remove leafCmp ⟨1, Nat.le_refl 1, by omega, atRoot⟩
    refine ⟨some root, next, ?_, kept⟩
    rw [fkHeapPop, if_neg empty, atRoot]
    dsimp only [Option.bind_eq_bind, Option.bind_some]
    rw [removed]
    rfl

/-- What one operation does. -/
theorem step (leafCmp : L → L → Int) (backed : hp.Backed book) {op : HeapOp L}
    (admitted : op.Admitted hp) :
    ∃ next, heapStep leafCmp hp op = some next ∧ next.Backed (bookStep leafCmp book hp op) := by
  cases op with
  | push leaf => exact backed.push leafCmp admitted
  | pop =>
      obtain ⟨root, next, popped, kept⟩ := backed.pop leafCmp
      rw [heapStep, bookStep, popped]
      cases root with
      | none => exact ⟨next, rfl, kept⟩
      | some leaf => exact ⟨next, rfl, kept⟩
  | remove leaf =>
      rcases admitted with contained | zero
      · exact backed.remove leafCmp contained
      · obtain ⟨removed, kept⟩ := backed.remove_outside leafCmp zero
        exact ⟨hp, removed, kept⟩

end FkHeap.Backed

instance (hp : FkHeap L) : DecidablePred (HeapOp.Admitted hp)
  | .push leaf => inferInstanceAs (Decidable (¬ hp.Contains leaf))
  | .pop => inferInstanceAs (Decidable True)
  | .remove leaf => inferInstanceAs (Decidable (hp.Contains leaf ∨ hp.idx leaf = 0))

/-- A step of the heap together with the book about its leaves. -/
def leafStep (leafCmp : L → L → Int) :
    FkHeap L × (L → Standing) → HeapOp L → Option (FkHeap L × (L → Standing)) :=
  noting (heapStep leafCmp) (bookStep leafCmp)

/-- An empty heap, with leaves that carry any positions. -/
def leafStart (idx : L → Nat) : FkHeap L × (L → Standing) :=
  ({ fkHeapCreate with idx := idx }, fun _ => .fresh)

theorem leafStep_backed (leafCmp : L → L → Int) (state : FkHeap L × (L → Standing)) (op : HeapOp L)
    (backed : state.1.Backed state.2) (admitted : op.Admitted state.1) :
    ∃ next, leafStep leafCmp state op = some next ∧ next.1.Backed next.2 := by
  obtain ⟨next, stepped, kept⟩ := backed.step leafCmp admitted
  refine ⟨(next, bookStep leafCmp state.2 state.1 op), ?_, kept⟩
  rw [leafStep, noting, stepped]
  rfl

/-- No operation of a run fails, and positions, slots and leaves agree after it. -/
theorem fkHeap_run_coherent (leafCmp : L → L → Int) (idx : L → Nat) (ops : List (HeapOp L))
    (admitted : Throughout (leafStep leafCmp) (fun state op => op.Admitted state.1)
      (leafStart idx) ops) :
    ∃ final, run (leafStep leafCmp) (leafStart idx) ops = some final ∧
      final.1.Coherent final.2 := by
  obtain ⟨final, ran, backed⟩ :=
    run_succeeds_along (leafStep_backed leafCmp) (FkHeap.Backed.create idx) admitted
  exact ⟨final, ran, backed.coherent⟩

/-- The timer 3 carries a position before it is pushed, and the timer 9 never gets one. -/
theorem fkHeap_run_coherent_stale :
    let idx := fun timer : Fin 16 => if timer = 3 then 7 else 0
    let ops : List (HeapOp (Fin 16)) :=
      [.push 1, .push 3, .push 2, .remove 1, .remove 9, .pop, .push 1, .remove 3]
    Throughout (leafStep (fkTmevCmp secondTimers)) (fun state op => op.Admitted state.1)
      (leafStart idx) ops ∧ ∃ final, run (leafStep (fkTmevCmp secondTimers)) (leafStart idx) ops =
      some final ∧ final.1.Coherent final.2 := by
  intro idx ops
  have admitted : Throughout (leafStep (fkTmevCmp secondTimers))
      (fun state op => op.Admitted state.1) (leafStart idx) ops := by
    decide
  exact ⟨admitted, fkHeap_run_coherent (fkTmevCmp secondTimers) idx ops admitted⟩

end Freekick
