import Mathlib.Data.List.Pairwise
import Mathlib.Data.List.Perm.Basic

/-!
# Finite maps up to an equivalence of keys

A list of pairs with pairwise inequivalent keys stands for a function from keys
to values.  The order of the list carries no meaning, and each change of the
list by one pair is one change of the function.
-/

namespace Freekick.Lib.KeyedMap

variable {K V : Type} {same : K → K → Prop} {elements other : List (K × V)}
  {found : K → Option V} {key stored : K} {value old : V}

/-- The function finds exactly the values of the list. -/
def Represents (same : K → K → Prop) (elements : List (K × V)) (found : K → Option V) : Prop :=
  ∀ key value, found key = some value ↔ ∃ stored, (stored, value) ∈ elements ∧ same stored key

def Distinct (same : K → K → Prop) (elements : List (K × V)) : Prop :=
  elements.Pairwise fun first second => ¬ same first.1 second.1

def update (same : K → K → Prop) [DecidableRel same] (found : K → Option V) (key : K) (value : V) :
    K → Option V :=
  fun wanted => if same key wanted then some value else found wanted

def erase (same : K → K → Prop) [DecidableRel same] (found : K → Option V) (key : K) :
    K → Option V :=
  fun wanted => if same key wanted then none else found wanted

theorem Represents.none_iff (represents : Represents same elements found) :
    found key = none ↔ ∀ element ∈ elements, ¬ same element.1 key := by
  constructor
  · intro absent element member equivalent
    have present := (represents key element.2).mpr ⟨element.1, member, equivalent⟩
    rw [absent] at present
    cases present
  · intro absent
    cases lookup : found key with
    | none => rfl
    | some value =>
        obtain ⟨stored, member, equivalent⟩ := (represents key value).mp lookup
        exact (absent _ member equivalent).elim

theorem Represents.unique {second : K → Option V} (first : Represents same elements found)
    (also : Represents same elements second) : found = second := by
  funext key
  apply Option.ext
  intro value
  exact (first key value).trans (also key value).symm

theorem Represents.perm (represents : Represents same elements found) (perm : elements.Perm other) :
    Represents same other found := by
  intro key value
  rw [represents key value]
  constructor
  · rintro ⟨stored, member, equivalent⟩
    exact ⟨stored, perm.subset member, equivalent⟩
  · rintro ⟨stored, member, equivalent⟩
    exact ⟨stored, perm.symm.subset member, equivalent⟩

theorem represents_nil : Represents same ([] : List (K × V)) fun _ => none := by
  intro key value
  constructor
  · intro impossible
    cases impossible
  · rintro ⟨_, member, _⟩
    cases member

/-- A change of the values. -/
theorem Represents.map {W : Type} (represents : Represents same elements found) (change : V → W) :
    Represents same (elements.map fun element => (element.1, change element.2))
      fun key => (found key).map change := by
  intro key result
  rw [Option.map_eq_some_iff]
  constructor
  · rintro ⟨value, lookup, rfl⟩
    obtain ⟨stored, member, equivalent⟩ := (represents key value).mp lookup
    exact ⟨stored, List.mem_map.mpr ⟨(stored, value), member, rfl⟩, equivalent⟩
  · rintro ⟨stored, member, equivalent⟩
    obtain ⟨element, original, changed⟩ := List.mem_map.mp member
    obtain ⟨rfl, rfl⟩ := Prod.mk.inj changed
    exact ⟨element.2, (represents key element.2).mpr ⟨element.1, original, equivalent⟩, rfl⟩

theorem Distinct.map {W : Type} (distinct : Distinct same elements) (change : V → W) :
    Distinct same (elements.map fun element => (element.1, change element.2)) :=
  List.pairwise_map.mpr distinct

theorem Distinct.perm (equiv : Equivalence same) (distinct : Distinct same elements)
    (perm : elements.Perm other) : Distinct same other := by
  refine (perm.pairwise_iff ?_).mp distinct
  intro first second apart equivalent
  exact apart (equiv.symm equivalent)

/-- A distinct list holds one pair for each key. -/
theorem Distinct.eq_of_same (equiv : Equivalence same) (distinct : Distinct same elements)
    {first second : K × V} (inFirst : first ∈ elements) (inSecond : second ∈ elements)
    (equivalent : same first.1 second.1) : first = second := by
  by_contra apart
  have symmetric : Std.Symm fun first second : K × V => ¬ same first.1 second.1 :=
    ⟨fun _ _ different reaches => different (equiv.symm reaches)⟩
  exact List.Pairwise.forall distinct inFirst inSecond apart equivalent

theorem Distinct.cons (represents : Represents same elements found)
    (equiv : Equivalence same) (distinct : Distinct same elements) (absent : found key = none) :
    Distinct same ((key, value) :: elements) := by
  refine List.Pairwise.cons ?_ distinct
  intro element member equivalent
  exact represents.none_iff.mp absent element member (equiv.symm equivalent)

/-- The key of a distinct list stays apart when only its value changes. -/
theorem Distinct.put (distinct : Distinct same ((stored, old) :: elements)) :
    Distinct same ((stored, value) :: elements) := by
  obtain ⟨apart, rest⟩ := List.pairwise_cons.mp distinct
  exact List.Pairwise.cons (fun element member => apart element member) rest

theorem Distinct.tail {element : K × V} (distinct : Distinct same (element :: elements)) :
    Distinct same elements := (List.pairwise_cons.mp distinct).2

section Changes

variable [DecidableRel same]

theorem Represents.cons (equiv : Equivalence same) (represents : Represents same elements found)
    (absent : found key = none) :
    Represents same ((key, value) :: elements) (update same found key value) := by
  intro wanted result
  unfold update
  split
  · next equivalent =>
      constructor
      · intro given
        cases given
        exact ⟨key, List.mem_cons_self .., equivalent⟩
      · rintro ⟨stored, member, reaches⟩
        rcases List.mem_cons.mp member with given | earlier
        · rw [(Prod.mk.inj given).2]
        · have clash := equiv.trans reaches (equiv.symm equivalent)
          exact (represents.none_iff.mp absent _ earlier clash).elim
  · next different =>
      rw [represents wanted result]
      constructor
      · rintro ⟨stored, member, reaches⟩
        exact ⟨stored, List.mem_cons_of_mem _ member, reaches⟩
      · rintro ⟨stored, member, reaches⟩
        rcases List.mem_cons.mp member with given | earlier
        · rw [(Prod.mk.inj given).1] at reaches
          exact (different reaches).elim
        · exact ⟨stored, earlier, reaches⟩

theorem Represents.erase_absent (equiv : Equivalence same)
    (represents : Represents same elements found) (absent : found key = none) :
    erase same found key = found := by
  funext wanted
  unfold erase
  split
  · next equivalent =>
      refine (represents.none_iff.mpr ?_).symm
      intro element member reaches
      exact represents.none_iff.mp absent element member
        (equiv.trans reaches (equiv.symm equivalent))
  · rfl

/-- Without its first pair a distinct list finds nothing under the key of that pair. -/
theorem Represents.tail (equiv : Equivalence same)
    (represents : Represents same ((stored, old) :: elements) found)
    (distinct : Distinct same ((stored, old) :: elements)) (reaches : same stored key) :
    Represents same elements (erase same found key) := by
  have apart := (List.pairwise_cons.mp distinct).1
  intro wanted result
  unfold erase
  split
  · next equivalent =>
      constructor
      · intro impossible
        cases impossible
      · rintro ⟨holder, member, holds⟩
        have clash := equiv.trans reaches (equiv.trans equivalent (equiv.symm holds))
        exact (apart _ member clash).elim
  · next different =>
      rw [represents wanted result]
      constructor
      · rintro ⟨holder, member, holds⟩
        rcases List.mem_cons.mp member with given | earlier
        · rw [(Prod.mk.inj given).1] at holds
          exact (different (equiv.trans (equiv.symm reaches) holds)).elim
        · exact ⟨holder, earlier, holds⟩
      · rintro ⟨holder, member, holds⟩
        exact ⟨holder, List.mem_cons_of_mem _ member, holds⟩

/-- Changing the value of one pair updates its key. -/
theorem Represents.put (equiv : Equivalence same)
    (represents : Represents same ((stored, old) :: elements) found)
    (distinct : Distinct same ((stored, old) :: elements)) (reaches : same stored key) :
    Represents same ((stored, value) :: elements) (update same found key value) := by
  have rest := represents.tail equiv distinct (equiv.refl stored)
  have absent : erase same found stored stored = none := if_pos (equiv.refl stored)
  have added : Represents same ((stored, value) :: elements)
      (update same (erase same found stored) stored value) := rest.cons equiv absent
  suffices agree : update same (erase same found stored) stored value =
      update same found key value by
    rwa [agree] at added
  funext wanted
  unfold update erase
  by_cases equivalent : same key wanted
  · rw [if_pos equivalent, if_pos (equiv.trans reaches equivalent)]
  · have different : ¬ same stored wanted := fun holds =>
      equivalent (equiv.trans (equiv.symm reaches) holds)
    rw [if_neg equivalent, if_neg different, if_neg different]

end Changes

end Freekick.Lib.KeyedMap
