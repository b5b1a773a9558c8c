import Mathlib.Algebra.BigOperators.Group.Finset.Basic
import Mathlib.Data.Finset.Card
import Mathlib.Logic.Function.Basic

/-!
# Objects that are made and released

Finitely many keys name the objects that exist.  How many of them have a property, and what
they weigh together, follows each object that is stored or released.
-/

namespace Freekick.Lib

structure Objects (K O : Type) where
  find : K → Option O
  live : Finset K
  live_iff : ∀ key, key ∈ live ↔ (find key).isSome

variable {K O : Type} [DecidableEq K]

namespace Objects

def empty : Objects K O where
  find := fun _ => none
  live := ∅
  live_iff := fun key => iff_of_false (Finset.notMem_empty key) Bool.false_ne_true

/-- Make the object, or give it another state. -/
def put (objs : Objects K O) (key : K) (object : O) : Objects K O where
  find := Function.update objs.find key (some object)
  live := insert key objs.live
  live_iff := by
    intro other
    rw [Finset.mem_insert, objs.live_iff]
    by_cases same : other = key
    · rw [same, Function.update_self]
      exact iff_of_true (.inl rfl) rfl
    · rw [Function.update_of_ne same]
      exact or_iff_right same

def drop (objs : Objects K O) (key : K) : Objects K O where
  find := Function.update objs.find key none
  live := objs.live.erase key
  live_iff := by
    intro other
    rw [Finset.mem_erase, objs.live_iff]
    by_cases same : other = key
    · rw [same, Function.update_self]
      exact iff_of_false (fun both => both.1 rfl) Bool.false_ne_true
    · rw [Function.update_of_ne same]
      exact and_iff_right same

/-- How many objects have a property. -/
def count (objs : Objects K O) (holds : O → Bool) : Nat :=
  (objs.live.filter fun key => (objs.find key).any holds).card

section Count

variable (objs : Objects K O) (key : K) (object : O) (holds : O → Bool)

@[simp]
theorem find_put : (objs.put key object).find = Function.update objs.find key (some object) := rfl

@[simp]
theorem find_drop : (objs.drop key).find = Function.update objs.find key none := rfl

variable {objs key object} in
/-- What all objects have, they have after one of them is made with it. -/
theorem each_put {has : K → O → Prop}
    (each : ∀ other old, objs.find other = some old → has other old) (new : has key object) :
    ∀ other old, (objs.put key object).find other = some old → has other old := by
  intro other old found
  rw [find_put] at found
  by_cases same : other = key
  · rw [same, Function.update_self] at found
    cases found
    rw [same]
    exact new
  · rw [Function.update_of_ne same] at found
    exact each other old found

variable {objs key} in
theorem each_drop {has : K → O → Prop}
    (each : ∀ other old, objs.find other = some old → has other old) :
    ∀ other old, (objs.drop key).find other = some old → has other old := by
  intro other old found
  rw [find_drop] at found
  by_cases same : other = key
  · rw [same, Function.update_self] at found
    cases found
  · rw [Function.update_of_ne same] at found
    exact each other old found

theorem put_put (other : O) : (objs.put key object).put key other = objs.put key other := by
  unfold put
  congr 1
  · exact Function.update_idem ..
  · exact Finset.insert_idem ..

theorem put_self (there : objs.find key = some object) : objs.put key object = objs := by
  obtain ⟨find, live, live_iff⟩ := objs
  change find key = some object at there
  have known : key ∈ live := (live_iff key).mpr (by rw [there]; rfl)
  unfold put
  congr 1
  · exact (congrArg _ there.symm).trans (Function.update_eq_self key find)
  · exact Finset.insert_eq_of_mem known

/-- The keys of a property, without one of them. -/
theorem count_erase : (objs.drop key).count holds + ((objs.find key).any holds).toNat =
    objs.count holds := by
  have others : (objs.drop key).live.filter (fun other => ((objs.drop key).find other).any holds) =
      (objs.live.filter fun other => (objs.find other).any holds).erase key := by
    ext other
    rw [Finset.mem_filter, Finset.mem_erase, Finset.mem_filter]
    change other ∈ objs.live.erase key ∧
      (Function.update objs.find key none other).any holds = true ↔ _
    rw [Finset.mem_erase]
    by_cases same : other = key
    · rw [same, Function.update_self]
      exact iff_of_false (fun all => all.1.1 rfl) fun all => all.1 rfl
    · rw [Function.update_of_ne same, and_assoc]
  unfold count
  rw [others]
  cases here : (objs.find key).any holds with
  | true =>
      have member : key ∈ objs.live.filter fun other => (objs.find other).any holds := by
        rw [Finset.mem_filter, objs.live_iff]
        refine ⟨?_, here⟩
        cases found : objs.find key with
        | none =>
            rw [found] at here
            cases here
        | some _ => rfl
      rw [Finset.card_erase_of_mem member]
      exact Nat.sub_add_cancel (Finset.card_pos.mpr ⟨key, member⟩)
  | false =>
      rw [Finset.erase_eq_of_notMem]
      · rfl
      · intro member
        rw [Finset.mem_filter, here] at member
        cases member.2

theorem count_put :
    (objs.put key object).count holds + ((objs.find key).any holds).toNat = objs.count holds +
      (holds object).toNat := by
  have first := (objs.put key object).count_erase key holds
  have second := objs.count_erase key holds
  have same : ((objs.put key object).drop key).count holds = (objs.drop key).count holds := by
    have find : ((objs.put key object).drop key).find = (objs.drop key).find :=
      Function.update_idem ..
    unfold count
    rw [find]
    congr 2
    ext other
    change other ∈ (insert key objs.live).erase key ↔ other ∈ objs.live.erase key
    rw [Finset.mem_erase, Finset.mem_erase, Finset.mem_insert]
    constructor
    · rintro ⟨apart, equal | live⟩
      · exact (apart equal).elim
      · exact ⟨apart, live⟩
    · rintro ⟨apart, live⟩
      exact ⟨apart, .inr live⟩
  rw [same, find_put, Function.update_self, Option.any_some] at first
  omega

end Count

/-! ## Weights -/

section Weight

variable (objs : Objects K O) (key : K) (object : O) (weight : O → Nat)

def weightAt : Nat := (objs.find key).elim 0 weight

/-- What all objects weigh. -/
def total : Nat := objs.live.sum fun key => objs.weightAt key weight

theorem total_drop : (objs.drop key).total weight + objs.weightAt key weight =
    objs.total weight := by
  have others : (objs.drop key).total weight = (objs.live.erase key).sum fun other =>
      objs.weightAt other weight := by
    refine Finset.sum_congr rfl fun other member => ?_
    rw [weightAt, find_drop, Function.update_of_ne (Finset.ne_of_mem_erase member), weightAt]
  rw [others]
  by_cases live : key ∈ objs.live
  · exact Finset.sum_erase_add _ _ live
  · have gone : objs.find key = none :=
      Option.not_isSome_iff_eq_none.mp fun there => live ((objs.live_iff key).mpr there)
    rw [Finset.erase_eq_of_notMem live, weightAt, gone]
    rfl

theorem weightAt_le_total : objs.weightAt key weight ≤ objs.total weight :=
  Nat.le.intro ((Nat.add_comm _ _).trans (objs.total_drop key weight))

theorem total_put : (objs.put key object).total weight + objs.weightAt key weight =
    objs.total weight + weight object := by
  have first := (objs.put key object).total_drop key weight
  have second := objs.total_drop key weight
  have here : (objs.put key object).weightAt key weight = weight object := by
    rw [weightAt, find_put, Function.update_self]
    rfl
  have same : ((objs.put key object).drop key).total weight = (objs.drop key).total weight := by
    have live : ((objs.put key object).drop key).live = (objs.drop key).live := by
      ext other
      rw [live_iff, live_iff, find_drop, find_drop, find_put, Function.update_idem]
    unfold total
    rw [live]
    refine Finset.sum_congr rfl fun other _ => ?_
    rw [weightAt, weightAt, find_drop, find_drop, find_put, Function.update_idem]
  omega

end Weight

end Objects

/-! ## Lists of the objects with a property -/

/-- The list has every object with the property once, and nothing else. -/
def Listed (list : List K) (objs : Objects K O) (holds : O → Bool) : Prop :=
  ∀ key, list.count key = ((objs.find key).any holds).toNat

namespace Listed

variable {list : List K} {objs : Objects K O} {holds : O → Bool} {key : K} {object : O}

theorem empty : Listed ([] : List K) (.empty : Objects K O) holds := fun _ => rfl

theorem mem_iff (listed : Listed list objs holds) : key ∈ list ↔
    (objs.find key).any holds = true := by
  rw [← List.count_pos_iff, listed key]
  cases (objs.find key).any holds <;> simp

/-- An object that has the property as before. -/
theorem put_same (listed : Listed list objs holds)
    (same : (objs.find key).any holds = holds object) :
    Listed list (objs.put key object) holds := by
  intro other
  rw [Objects.find_put]
  by_cases equal : other = key
  · rw [equal, Function.update_self, listed, same, Option.any_some]
  · rw [Function.update_of_ne equal, listed]

theorem put_cons (listed : Listed list objs holds) (without : (objs.find key).any holds = false)
    (has : holds object = true) : Listed (key :: list) (objs.put key object) holds := by
  intro other
  rw [Objects.find_put, List.count_cons, listed other]
  by_cases equal : other = key
  · rw [equal, Function.update_self, without, Option.any_some, has, if_pos (beq_self_eq_true key)]
    rfl
  · rw [Function.update_of_ne equal, if_neg (by simpa using fun same => equal same.symm)]
    rfl

theorem put_erase (listed : Listed list objs holds) (has : (objs.find key).any holds = true)
    (without : holds object = false) : Listed (list.erase key) (objs.put key object) holds := by
  intro other
  rw [Objects.find_put]
  by_cases equal : other = key
  · rw [equal, List.count_erase_self, Function.update_self, listed, has, Option.any_some, without]
    rfl
  · rw [List.count_erase_of_ne equal, Function.update_of_ne equal, listed]

theorem drop (listed : Listed list objs holds) (without : (objs.find key).any holds = false) :
    Listed list (objs.drop key) holds := by
  intro other
  rw [Objects.find_drop, listed]
  by_cases equal : other = key
  · rw [equal, Function.update_self, without]
    rfl
  · rw [Function.update_of_ne equal]

end Listed

end Freekick.Lib
