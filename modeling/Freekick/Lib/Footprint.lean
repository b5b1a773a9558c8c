import Mathlib.Data.Set.Function
import Mathlib.Data.Set.Prod

/-!
# Footprints

An operation on a store is local to some cells when what it answers and what it leaves in
them depends on these cells only, and all other cells stay as they are.  Next to
operations on other cells such an operation does what it does alone.
-/

namespace Freekick.Lib.Footprint

open Set

variable {C I K V A B : Type}

/-- The operation reads and writes these cells only; it may fail. -/
structure Local (cells : Set C) (op : (C → V) → Option (A × (C → V))) : Prop where
  frame : ∀ {store answer after}, op store = some (answer, after) → EqOn after store cellsᶜ
  follow : ∀ {store other answer after}, EqOn store other cells → op store = some (answer, after) →
    ∃ after', op other = some (answer, after') ∧ EqOn after after' cells

namespace Local

variable {cells larger : Set C} {op : (C → V) → Option (A × (C → V))} {store other after : C → V}
  {answer : A}

/-- On a larger set of cells. -/
theorem mono (sub : cells ⊆ larger) (within : Local cells op) : Local larger op := by
  constructor
  · intro store answer after ran cell outside
    exact within.frame ran fun inside => outside (sub inside)
  · intro store other answer after same ran
    obtain ⟨after', again, agree⟩ := within.follow (same.mono sub) ran
    refine ⟨after', again, fun cell inside => ?_⟩
    by_cases touched : cell ∈ cells
    · exact agree touched
    · rw [within.frame ran touched, within.frame again touched]
      exact same inside

/-- Cells that the operation does not reach keep their values. -/
theorem apart (within : Local cells op) (disjoint : cells ⊆ largerᶜ)
    (ran : op store = some (answer, after)) :
    EqOn after store larger :=
  fun _ inside => within.frame ran fun touched => disjoint touched inside

/-- One operation after the other. -/
theorem bind {next : A → (C → V) → Option (B × (C → V))} (first : Local cells op)
    (later : ∀ answer, Local cells (next answer)) :
    Local cells fun store => (op store).bind fun result => next result.1 result.2 := by
  constructor
  · intro store answer after ran
    obtain ⟨⟨between, middle⟩, moved, ended⟩ := Option.bind_eq_some_iff.mp ran
    exact ((later between).frame ended).trans (first.frame moved)
  · intro store other answer after same ran
    obtain ⟨⟨between, middle⟩, moved, ended⟩ := Option.bind_eq_some_iff.mp ran
    obtain ⟨middle', again, agree⟩ := first.follow same moved
    obtain ⟨after', finished, alike⟩ := (later between).follow agree ended
    exact ⟨after', Option.bind_eq_some_iff.mpr ⟨_, again, finished⟩, alike⟩

/-- Another answer. -/
theorem map (within : Local cells op) (convert : A → B) :
    Local cells fun store => (op store).map fun result => (convert result.1, result.2) := by
  constructor
  · intro store answer after ran
    obtain ⟨⟨old, middle⟩, moved, same⟩ := Option.map_eq_some_iff.mp ran
    cases same
    exact within.frame moved
  · intro store other answer after same ran
    obtain ⟨⟨old, middle⟩, moved, known⟩ := Option.map_eq_some_iff.mp ran
    cases known
    obtain ⟨after', again, agree⟩ := within.follow same moved
    exact ⟨after', Option.map_eq_some_iff.mpr ⟨_, again, rfl⟩, agree⟩

/-- On one row of a table. -/
theorem row [DecidableEq I] {keys : Set K} {inner : (K → V) → Option (A × (K → V))} (idx : I)
    (within : Local keys inner) :
    Local ({idx} ×ˢ keys) fun table : I × K →
      V => (inner fun key => table (idx, key)).map fun result =>
      (result.1, fun cell => if cell.1 = idx then result.2 cell.2 else table cell) := by
  constructor
  · intro table answer after ran
    obtain ⟨⟨old, own⟩, moved, same⟩ := Option.map_eq_some_iff.mp ran
    cases same
    rintro ⟨row, key⟩ outside
    by_cases here : row = idx
    · subst here
      simp only [↓reduceIte]
      exact within.frame moved fun touched => outside ⟨rfl, touched⟩
    · exact if_neg here
  · intro table other answer after same ran
    obtain ⟨⟨old, own⟩, moved, known⟩ := Option.map_eq_some_iff.mp ran
    cases known
    have alike : EqOn (fun key => table (idx, key)) (fun key => other (idx, key)) keys :=
      fun key inside =>
        same ⟨rfl, inside⟩
    obtain ⟨own', again, agree⟩ := within.follow alike moved
    refine ⟨_, Option.map_eq_some_iff.mpr ⟨_, again, rfl⟩, ?_⟩
    rintro ⟨row, key⟩ ⟨here, inside⟩
    cases here
    simpa using agree inside

end Local

/-- Every operation is local to all cells. -/
theorem local_univ (op : (C → V) → Option (A × (C → V))) : Local univ op := by
  constructor
  · intro store answer after ran cell outside
    exact (outside trivial).elim
  · intro store other answer after same ran
    rw [eqOn_univ] at same
    exact ⟨after, same ▸ ran, eqOn_refl ..⟩

/-- An operation that touches nothing. -/
theorem local_pure (cells : Set C) (answer : A) :
    Local cells fun store : C → V => some (answer, store) := by
  constructor
  · intro store answer after ran
    cases ran
    exact eqOn_refl ..
  · intro store other answer after same ran
    cases ran
    exact ⟨other, rfl, same⟩

/-- An operation on one cell. -/
theorem local_cell [DecidableEq C] {op : (C → V) → Option (A × (C → V))} (cell : C)
    (act : V → Option (A × V))
    (acts : ∀ store, op store = (act (store cell)).map fun result =>
      (result.1, Function.update store cell result.2)) :
    Local {cell} op := by
  constructor
  · intro store answer after ran
    rw [acts] at ran
    obtain ⟨⟨old, value⟩, moved, same⟩ := Option.map_eq_some_iff.mp ran
    cases same
    intro other outside
    exact Function.update_of_ne outside ..
  · intro store other answer after same ran
    rw [acts] at ran
    obtain ⟨⟨old, value⟩, moved, known⟩ := Option.map_eq_some_iff.mp ran
    cases known
    rw [same rfl] at moved
    refine ⟨Function.update other cell value, ?_, ?_⟩
    · simp [acts, moved]
    · rintro _ rfl
      simp

end Freekick.Lib.Footprint
