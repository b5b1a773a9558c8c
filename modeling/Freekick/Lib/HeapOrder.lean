import Mathlib.Order.Basic

/-!
# Binary heap order

Positions start at one and the parent of `i` is `i / 2`.  A sift moves one
item; while it moves, everything around its position is in order, and the two
structures below say what that means on the way up and on the way down.
-/

namespace Freekick.Lib.HeapOrder

variable {A : Type} {le : A → A → Prop} {tree : Nat → A} {last hole : Nat}

def Ordered (le : A → A → Prop) (tree : Nat → A) (last : Nat) : Prop :=
  ∀ i, 2 ≤ i → i ≤ last → le (tree (i / 2)) (tree i)

/-- In order but for the item at `hole`, which may belong above its parent. -/
structure OrderedUp (le : A → A → Prop) (tree : Nat → A) (last hole : Nat) : Prop where
  off : ∀ i, 2 ≤ i → i ≤ last → i ≠ hole → le (tree (i / 2)) (tree i)
  across : ∀ i, 2 ≤ hole → i ≤ last → i / 2 = hole → le (tree (hole / 2)) (tree i)

/-- In order but for the item at `hole`, which may belong below its children. -/
structure OrderedDown (le : A → A → Prop) (tree : Nat → A) (last hole : Nat) : Prop where
  off : ∀ i, 2 ≤ i → i ≤ last → i / 2 ≠ hole → le (tree (i / 2)) (tree i)
  across : ∀ i, 2 ≤ hole → i ≤ last → i / 2 = hole → le (tree (hole / 2)) (tree i)

def exchange (tree : Nat → A) (i j : Nat) : Nat → A :=
  fun k => if k = i then tree j else if k = j then tree i else tree k

theorem exchange_first (i j : Nat) : exchange tree i j i = tree j := if_pos rfl

theorem exchange_second (i j : Nat) : exchange tree i j j = tree i := by
  unfold exchange
  split
  · next same => rw [same]
  · exact if_pos rfl

theorem exchange_other {i j k : Nat} (first : k ≠ i) (second : k ≠ j) :
    exchange tree i j k = tree k := by
  unfold exchange
  rw [if_neg first, if_neg second]

theorem exchange_comm (i j : Nat) : exchange tree i j = exchange tree j i := by
  funext k
  by_cases onI : k = i
  · rw [onI, exchange_first, exchange_second]
  · by_cases onJ : k = j
    · rw [onJ, exchange_first, exchange_second]
    · rw [exchange_other onI onJ, exchange_other onJ onI]

theorem OrderedUp.done (up : OrderedUp le tree last hole)
    (above : 2 ≤ hole → le (tree (hole / 2)) (tree hole)) : Ordered le tree last := by
  intro i least most
  by_cases atHole : i = hole
  · subst atHole
    exact above least
  · exact up.off i least most atHole

theorem OrderedDown.done (down : OrderedDown le tree last hole)
    (below : ∀ i, 2 ≤ i → i ≤ last → i / 2 = hole → le (tree hole) (tree i)) :
    Ordered le tree last := by
  intro i least most
  by_cases atHole : i / 2 = hole
  · rw [atHole]
    exact below i least most atHole
  · exact down.off i least most atHole

/-- The item at the hole changes places with its least child. -/
theorem OrderedDown.move {child : Nat} (down : OrderedDown le tree last hole) (least : 2 ≤ child)
    (most : child ≤ last) (isChild : child / 2 = hole) (less : le (tree child) (tree hole))
    (smallest : ∀ i, 2 ≤ i → i ≤ last → i / 2 = hole → i ≠ child → le (tree child) (tree i)) :
    OrderedDown le (exchange tree hole child) last child := by
  constructor
  · intro i iLeast iMost apart
    by_cases atHole : i = hole
    · subst atHole
      rw [exchange_first, exchange_other (by omega) (by omega)]
      exact down.across child iLeast most isChild
    · by_cases below : i / 2 = hole
      · rw [below, exchange_first]
        by_cases atChild : i = child
        · rw [atChild, exchange_second]
          exact less
        · rw [exchange_other atHole atChild]
          exact smallest i iLeast iMost below atChild
      · rw [exchange_other below apart, exchange_other atHole (by omega)]
        exact down.off i iLeast iMost below
  · intro i childLeast iMost below
    rw [isChild, exchange_first, exchange_other (by omega) (by omega)]
    have kept := down.off i (by omega) iMost (by omega)
    rwa [below] at kept

section Moves

variable (trans : ∀ first second third, le first second → le second third → le first third)

include trans

/-- The item at the hole changes places with its parent. -/
theorem OrderedUp.move (up : OrderedUp le tree last hole) (least : 2 ≤ hole) (most : hole ≤ last)
    (less : le (tree hole) (tree (hole / 2))) :
    OrderedUp le (exchange tree hole (hole / 2)) last (hole / 2) := by
  have parentNe : hole / 2 ≠ hole := by omega
  constructor
  · intro i iLeast iMost apart
    by_cases atHole : i = hole
    · subst atHole
      rw [exchange_first, exchange_second]
      exact less
    · rw [exchange_other atHole apart]
      by_cases child : i / 2 = hole
      · rw [child, exchange_first]
        exact up.across i least iMost child
      · by_cases sibling : i / 2 = hole / 2
        · rw [sibling, exchange_second]
          have kept := up.off i iLeast iMost atHole
          rw [sibling] at kept
          exact trans _ _ _ less kept
        · rw [exchange_other child sibling]
          exact up.off i iLeast iMost atHole
  · intro i parentLeast iMost sibling
    have grand := up.off (hole / 2) parentLeast (by omega) parentNe
    rw [exchange_other (by omega) (by omega)]
    by_cases atHole : i = hole
    · subst atHole
      rw [exchange_first]
      exact grand
    · rw [exchange_other atHole (by omega)]
      have kept := up.off i (by omega) iMost atHole
      rw [sibling] at kept
      exact trans _ _ _ grand kept

/-- The root of an ordered heap is below every other item. -/
theorem Ordered.root_le (ordered : Ordered le tree last) (refl : ∀ i, 1 ≤ i → i ≤ last →
    le (tree i) (tree i)) {i : Nat} (least : 1 ≤ i) (most : i ≤ last) : le (tree 1) (tree i) := by
  induction i using Nat.strongRecOn with
  | ind i ih =>
      by_cases root : i = 1
      · subst root
        exact refl 1 least most
      · have parent := ih (i / 2) (by omega) (by omega) (by omega)
        exact trans _ _ _ parent (ordered i (by omega) most)

end Moves

end Freekick.Lib.HeapOrder
