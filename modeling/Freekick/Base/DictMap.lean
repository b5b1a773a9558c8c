import Freekick.Base.Dict
import Freekick.Base.Util
import Freekick.Lib.KeyedMap

/-!
# Dictionaries are finite maps

`FkDict.Wf` is what every operation keeps, and `fkDictGet` is the map that a
dictionary stands for.  Each operation has one lemma that says what it does to
the elements and one that says what it does to the map.
-/

namespace Freekick

open Lib.Buckets Lib.KeyedMap

variable {K V : Type}

namespace FkEltOp

/-- Two keys compare equal. -/
def Same (eop : FkEltOp K) (first second : K) : Prop := eop.keyCmp first second = 0

instance (eop : FkEltOp K) : DecidableRel eop.Same :=
  fun first second => inferInstanceAs (Decidable (eop.keyCmp first second = 0))

structure Lawful (eop : FkEltOp K) : Prop where
  equiv : Equivalence eop.Same
  hash : ∀ {first second}, eop.Same first second → eop.keyHash first = eop.keyHash second

/-- The bucket of an element in a table with the given mask. -/
def place (eop : FkEltOp K) (mask : Nat) (elt : K × V) : Nat := (eop.keyHash elt.1).toNat &&& mask

end FkEltOp

structure FkDict.Wf (eop : FkEltOp K) (dct : FkDict K V) : Prop where
  size_pow : ∃ exponent, 2 ≤ exponent ∧ dct.size = 2 ^ exponent
  mask : dct.sizeMask = dct.size - 1
  limit : dct.limit = dct.size / 2
  used_le : dct.used ≤ dct.limit
  count : dct.used = dct.elements.length
  length : dct.buckets.length = dct.size
  placed : Placed (eop.place dct.sizeMask) dct.buckets
  distinct : Distinct eop.Same dct.elements

variable {eop : FkEltOp K} {dct : FkDict K V} {key : K} {value : V}

theorem fkDictInit_elements : (fkDictInit : FkDict K V).elements = [] :=
  contents_replicate fkDictInitSize

theorem fkDictInit_wf : (fkDictInit : FkDict K V).Wf eop where
  size_pow := ⟨2, Nat.le_refl 2, rfl⟩
  mask := rfl
  limit := rfl
  used_le := Nat.zero_le _
  count := by rw [fkDictInit_elements]; rfl
  length := rfl
  placed := placed_replicate fkDictInitSize
  distinct := by rw [fkDictInit_elements]; exact List.Pairwise.nil

theorem FkDict.Wf.size_ge (wf : dct.Wf eop) : 4 ≤ dct.size := by
  obtain ⟨exponent, least, size⟩ := wf.size_pow
  rw [size]
  exact Nat.pow_le_pow_right (show 0 < 2 by decide) least

theorem and_pred_lt {size : Nat} (positive : 0 < size) (hash : Nat) : hash &&& (size - 1) < size :=
  Nat.lt_of_le_of_lt Nat.and_le_right (Nat.sub_lt positive (by decide))

theorem FkDict.Wf.place_lt (wf : dct.Wf eop) (elt : K × V) :
    eop.place dct.sizeMask elt < dct.buckets.length := by
  have size := wf.size_ge
  rw [wf.length, FkEltOp.place, wf.mask]
  exact and_pred_lt (by omega) _

/-! ## Searching -/

/-- A successful search stops at an element with an equal key. -/
theorem fkDictSearch_some {idx position : Nat}
    (found : fkDictSearch eop dct key = (idx, some position)) :
    idx = (eop.keyHash key).toNat &&& dct.sizeMask ∧
      ∃ front elt back, chain dct.buckets idx = front ++ elt :: back ∧ position = front.length ∧
        eop.Same elt.1 key := by
  obtain ⟨bucket, searched⟩ := Prod.mk.inj found
  rw [bucket] at searched
  obtain ⟨inside, equal, _⟩ := List.findIdx?_eq_some_iff_getElem.mp searched
  refine ⟨bucket.symm, (chain dct.buckets idx).take position, (chain dct.buckets idx)[position],
    (chain dct.buckets idx).drop (position + 1), ?_, ?_, ?_⟩
  · rw [← List.drop_eq_getElem_cons inside, List.take_append_drop]
  · rw [List.length_take, Nat.min_eq_left (Nat.le_of_lt inside)]
  · exact beq_iff_eq.mp equal

theorem fkDictSearch_none (lawful : eop.Lawful) (wf : dct.Wf eop) {idx : Nat}
    (missing : fkDictSearch eop dct key = (idx, none)) :
    ∀ elt ∈ dct.elements, ¬ eop.Same elt.1 key := by
  obtain ⟨_, searched⟩ := Prod.mk.inj missing
  intro elt member equal
  have inChain := wf.placed.mem_chain member
  have bucket : eop.place dct.sizeMask elt = (eop.keyHash key).toNat &&& dct.sizeMask := by
    rw [FkEltOp.place, lawful.hash equal]
  rw [bucket] at inChain
  have different := List.findIdx?_eq_none_iff.mp searched elt inChain
  rw [show eop.keyCmp elt.1 key = 0 from equal] at different
  cases different

/-- A well-formed dictionary finds exactly its elements. -/
theorem FkDict.Wf.represents (lawful : eop.Lawful) (wf : dct.Wf eop) :
    Represents eop.Same dct.elements (fkDictGet eop dct) := by
  intro key value
  unfold fkDictGet
  split
  · next idx missing =>
      constructor
      · intro impossible
        cases impossible
      · rintro ⟨stored, member, equal⟩
        exact (fkDictSearch_none lawful wf missing _ member equal).elim
  · next idx position found =>
      obtain ⟨_, front, elt, back, split, rfl, equal⟩ := fkDictSearch_some found
      have member : elt ∈ dct.elements := by
        refine mem_contents_iff.mpr ⟨idx, ?_⟩
        rw [split]
        exact List.mem_append_right _ (List.mem_cons_self ..)
      rw [split, List.getElem?_append_right (Nat.le_refl _), Nat.sub_self, List.getElem?_cons_zero,
        Option.map_some]
      constructor
      · intro given
        cases given
        exact ⟨elt.1, member, equal⟩
      · rintro ⟨stored, other, reaches⟩
        have sameElt := wf.distinct.eq_of_same lawful.equiv member other
          (lawful.equiv.trans equal (lawful.equiv.symm reaches))
        rw [sameElt]

theorem fkDictGet_init (lawful : eop.Lawful) :
    fkDictGet eop (fkDictInit : FkDict K V) = fun _ => none := by
  have represents : Represents eop.Same (fkDictInit : FkDict K V).elements
      (fkDictGet eop fkDictInit) :=
    fkDictInit_wf.represents lawful
  rw [fkDictInit_elements] at represents
  exact represents.unique represents_nil

/-! ## Growing -/

theorem foldl_slots (place : K × V → Nat) (slots : List (Option (List (K × V))))
    (bks : List (Option (List (K × V)))) :
    slots.foldl (fun bks slot => (slot.getD []).foldl (push place) bks) bks =
      (contents slots).foldl (push place) bks := by
  rw [contents, List.foldl_flatten, List.foldl_map]

/-- A full table doubles and keeps its elements. -/
theorem fkDictStretch_full (wf : dct.Wf eop) (lawful : eop.Lawful) (full : dct.used = dct.limit) :
    (fkDictStretch eop dct).Wf eop ∧ (fkDictStretch eop dct).elements.Perm dct.elements ∧
      (fkDictStretch eop dct).used < (fkDictStretch eop dct).limit := by
  have size := wf.size_ge
  have double : dct.size <<< 1 = 2 * dct.size := by rw [Nat.shiftLeft_eq]; omega
  have half : (2 * dct.size) >>> 1 = dct.size := by rw [Nat.shiftRight_eq_div_pow]; omega
  have stretched : fkDictStretch eop dct = { dct with
      buckets := dct.elements.foldl (push (eop.place (2 * dct.size - 1)))
        (List.replicate (2 * dct.size) none)
      size := 2 * dct.size
      sizeMask := 2 * dct.size - 1
      limit := dct.size } := by
    rw [fkDictStretch, if_neg (by rw [full]; exact Nat.lt_irrefl _)]
    simp only [foldl_slots, double, half]
    rfl
  have fits : ∀ elt : K × V, eop.place (2 * dct.size - 1) elt <
      (List.replicate (2 * dct.size) (none : Option (List (K × V)))).length := by
    intro elt
    rw [List.length_replicate]
    exact and_pred_lt (by omega) _
  obtain ⟨length, placed, perm⟩ := foldl_push fits (placed_replicate _) dct.elements
  rw [contents_replicate, List.append_nil] at perm
  rw [List.length_replicate] at length
  have limit := wf.limit
  rw [stretched]
  refine ⟨⟨?_, rfl, ?_, ?_, ?_, length, placed, wf.distinct.perm lawful.equiv perm.symm⟩, perm, ?_⟩
  · obtain ⟨exponent, least, power⟩ := wf.size_pow
    refine ⟨exponent + 1, by omega, ?_⟩
    rw [power, Nat.pow_succ, Nat.mul_comm]
  · exact (Nat.mul_div_cancel_left _ (by decide)).symm
  · change dct.used ≤ dct.size
    omega
  · rw [wf.count]
    exact perm.length_eq.symm
  · change dct.used < dct.size
    omega

/-- The table that `fk_dict_add` searches. -/
theorem fkDictAdd_room (wf : dct.Wf eop) (lawful : eop.Lawful) :
    let roomy := if dct.used = dct.limit then fkDictStretch eop dct else dct
    roomy.Wf eop ∧ roomy.elements.Perm dct.elements ∧ roomy.used < roomy.limit := by
  dsimp only
  split
  · next full => exact fkDictStretch_full wf lawful full
  · next room => exact ⟨wf, .refl _, Nat.lt_of_le_of_ne wf.used_le room⟩

/-! ## The elements after each operation -/

/-- The element found by a search, at the front of the elements in some order, and
what becomes of them when its place in the chain is changed. -/
theorem fkDictSearch_split {idx position : Nat} (wf : dct.Wf eop)
    (found : fkDictSearch eop dct key = (idx, some position)) :
    ∃ elt rest, (chain dct.buckets idx)[position]? = some elt ∧ eop.Same elt.1 key ∧
      dct.elements.Perm (elt :: rest) ∧
      (contents
        (dct.buckets.set idx (some ((chain dct.buckets idx).eraseIdx position)))).Perm rest ∧
      ∀ value, (contents (dct.buckets.set idx
        (some ((chain dct.buckets idx).modify position fun elt => (elt.1, value))))).Perm
          ((elt.1, value) :: rest) ∧
        ∀ other ∈ (chain dct.buckets idx).modify position (fun elt => (elt.1, value)),
          eop.place dct.sizeMask other = idx := by
  obtain ⟨bucket, front, elt, back, chained, rfl, equal⟩ := fkDictSearch_some found
  have inChain : elt ∈ chain dct.buckets idx := by
    rw [chained]
    exact List.mem_append_right _ (List.mem_cons_self ..)
  have inside : idx < dct.buckets.length := by
    have below := wf.place_lt elt
    rwa [wf.placed idx elt inChain] at below
  obtain ⟨before, after, whole, changed⟩ := contents_split inside
  refine ⟨elt, before ++ (front ++ (back ++ after)), ?_, equal, ?_, ?_, ?_⟩
  · rw [chained, List.getElem?_append_right (Nat.le_refl _), Nat.sub_self]
    rfl
  · rw [FkDict.elements, whole, chained, List.append_assoc, List.cons_append]
    exact (List.perm_middle.append_left before).trans List.perm_middle
  · rw [changed, chained, List.eraseIdx_append_of_length_le (Nat.le_refl _), Nat.sub_self,
      List.eraseIdx_cons_zero, List.append_assoc]
  · intro value
    have modified : (front ++ elt :: back).modify front.length (fun elt => (elt.1, value)) =
        front ++ (elt.1, value) :: back := by
      rw [List.modify_eq_set_getElem?]
      simp
    rw [chained, modified]
    constructor
    · rw [changed, List.append_assoc, List.cons_append]
      exact (List.perm_middle.append_left before).trans List.perm_middle
    · intro other member
      rcases List.mem_append.mp member with inFront | inRest
      · exact wf.placed idx other (by rw [chained]; exact List.mem_append_left _ inFront)
      · rcases List.mem_cons.mp inRest with rfl | inBack
        · exact wf.placed idx elt inChain
        · refine wf.placed idx other ?_
          rw [chained]
          exact List.mem_append_right _ (List.mem_cons_of_mem _ inBack)

/-- A chain may change as long as its elements stay in their bucket. -/
theorem FkDict.Wf.set (wf : dct.Wf eop) {idx used : Nat} {items : List (K × V)}
    (placed : ∀ elt ∈ items, eop.place dct.sizeMask elt = idx) (fits : used ≤ dct.limit)
    (count : used = (contents (dct.buckets.set idx (some items))).length)
    (distinct : Distinct eop.Same (contents (dct.buckets.set idx (some items)))) :
    FkDict.Wf eop { dct with buckets := dct.buckets.set idx (some items), used := used } where
  size_pow := wf.size_pow
  mask := wf.mask
  limit := wf.limit
  used_le := fits
  count := count
  length := List.length_set.trans wf.length
  placed := wf.placed.set placed
  distinct := distinct

/-- Dictionaries with the same elements are the same map. -/
theorem fkDictGet_perm {other : FkDict K V} (lawful : eop.Lawful) (wf : dct.Wf eop)
    (otherWf : other.Wf eop) (perm : dct.elements.Perm other.elements) :
    fkDictGet eop dct = fkDictGet eop other :=
  ((wf.represents lawful).perm perm).unique (otherWf.represents lawful)

theorem fkDictSearch_isSome_iff (lawful : eop.Lawful) (wf : dct.Wf eop) :
    (fkDictSearch eop dct key).2.isSome ↔ fkDictGet eop dct key ≠ none := by
  rw [ne_eq, (wf.represents lawful).none_iff]
  cases searched : fkDictSearch eop dct key with
  | mk idx result =>
      cases result with
      | none =>
          have missing := fkDictSearch_none lawful wf searched
          constructor
          · intro impossible
            cases impossible
          · intro present
            exact (present missing).elim
      | some position =>
          obtain ⟨elt, rest, _, equal, perm, _⟩ := fkDictSearch_split wf searched
          constructor
          · intro _ absent
            exact absent elt (perm.symm.subset (List.mem_cons_self ..)) equal
          · intro _
            rfl

/-- Adding an absent key. -/
theorem fkDictAdd_absent (lawful : eop.Lawful) (wf : dct.Wf eop)
    (absent : fkDictGet eop dct key = none) (value : V) :
    (fkDictAdd eop dct key value).1 = .ok ∧ (fkDictAdd eop dct key value).2.Wf eop ∧
      (fkDictAdd eop dct key value).2.elements.Perm ((key, value) :: dct.elements) := by
  obtain ⟨roomyWf, perm, room⟩ := fkDictAdd_room wf lawful
  unfold fkDictAdd
  dsimp only at roomyWf perm room ⊢
  generalize (if dct.used = dct.limit then fkDictStretch eop dct else dct) =
    roomy at roomyWf perm room ⊢
  have stillAbsent : fkDictGet eop roomy key = none := by
    rwa [fkDictGet_perm lawful roomyWf wf perm]
  cases searched : fkDictSearch eop roomy key with
  | mk idx result =>
      cases result with
      | some position =>
          have found : (fkDictSearch eop roomy key).2.isSome := by
            rw [searched]
            rfl
          exact ((fkDictSearch_isSome_iff lawful roomyWf).mp found stillAbsent).elim
      | none =>
          have bucket : eop.place roomy.sizeMask (key, value) = idx := (Prod.mk.inj searched).1
          have pushed : roomy.buckets.set idx (some ((key, value) :: chain roomy.buckets idx)) =
              push (eop.place roomy.sizeMask) roomy.buckets (key, value) := by
            rw [push, bucket]
          have grown : (contents (push (eop.place roomy.sizeMask) roomy.buckets (key, value))).Perm
              ((key, value) :: roomy.elements) := contents_push (roomyWf.place_lt (key, value))
          dsimp only
          rw [pushed]
          have distinct : Distinct eop.Same ((key, value) :: roomy.elements) :=
            Distinct.cons (roomyWf.represents lawful) lawful.equiv roomyWf.distinct stillAbsent
          refine ⟨rfl, ?_, grown.trans (perm.cons _)⟩
          refine ⟨roomyWf.size_pow, roomyWf.mask, roomyWf.limit, room, ?_,
            (length_push _).trans roomyWf.length, roomyWf.placed.push _,
            distinct.perm lawful.equiv grown.symm⟩
          change roomy.used + 1 = _
          rw [roomyWf.count]
          exact grown.length_eq.symm

/-- Adding a present key changes at most the size of the table. -/
theorem fkDictAdd_present (lawful : eop.Lawful) (wf : dct.Wf eop)
    (present : fkDictGet eop dct key ≠ none) (value : V) :
    (fkDictAdd eop dct key value).1 = .err ∧ (fkDictAdd eop dct key value).2.Wf eop ∧
      (fkDictAdd eop dct key value).2.elements.Perm dct.elements := by
  obtain ⟨roomyWf, perm, room⟩ := fkDictAdd_room wf lawful
  unfold fkDictAdd
  dsimp only at roomyWf perm room ⊢
  generalize (if dct.used = dct.limit then fkDictStretch eop dct else dct) = roomy at roomyWf perm ⊢
  have stillPresent : fkDictGet eop roomy key ≠ none := by
    rwa [fkDictGet_perm lawful roomyWf wf perm]
  cases searched : fkDictSearch eop roomy key with
  | mk idx result =>
      cases result with
      | none =>
          have found := (fkDictSearch_isSome_iff lawful roomyWf).mpr stillPresent
          rw [searched] at found
          cases found
      | some position => exact ⟨rfl, roomyWf, perm⟩

/-! ## The map after each operation -/

theorem fkDictAdd_wf (lawful : eop.Lawful) (wf : dct.Wf eop) (key : K) (value : V) :
    (fkDictAdd eop dct key value).2.Wf eop := by
  by_cases absent : fkDictGet eop dct key = none
  · exact (fkDictAdd_absent lawful wf absent value).2.1
  · exact (fkDictAdd_present lawful wf absent value).2.1

theorem fkDictAdd_get (lawful : eop.Lawful) (wf : dct.Wf eop)
    (absent : fkDictGet eop dct key = none) (value : V) :
    fkDictGet eop (fkDictAdd eop dct key value).2 =
      update eop.Same (fkDictGet eop dct) key value := by
  obtain ⟨_, addedWf, perm⟩ := fkDictAdd_absent lawful wf absent value
  have added : Represents eop.Same ((key, value) :: dct.elements)
      (update eop.Same (fkDictGet eop dct) key value) :=
    (wf.represents lawful).cons lawful.equiv absent
  exact (addedWf.represents lawful).unique (added.perm perm.symm)

theorem fkDictAdd_get_present (lawful : eop.Lawful) (wf : dct.Wf eop)
    (present : fkDictGet eop dct key ≠ none) (value : V) :
    fkDictGet eop (fkDictAdd eop dct key value).2 = fkDictGet eop dct := by
  obtain ⟨_, keptWf, perm⟩ := fkDictAdd_present lawful wf present value
  exact fkDictGet_perm lawful keptWf wf perm

/-- A new value for a present key. -/
theorem fkDictPut_spec (lawful : eop.Lawful) (wf : dct.Wf eop)
    (present : fkDictGet eop dct key ≠ none) (value : V) :
    (fkDictPut eop dct key value).Wf eop ∧
      fkDictGet eop (fkDictPut eop dct key value) = update eop.Same
        (fkDictGet eop dct) key value := by
  have found := (fkDictSearch_isSome_iff lawful wf).mpr present
  unfold fkDictPut
  cases searched : fkDictSearch eop dct key with
  | mk idx result =>
      cases result with
      | none =>
          rw [searched] at found
          cases found
      | some position =>
          obtain ⟨elt, rest, _, equal, perm, _, modified⟩ := fkDictSearch_split wf searched
          obtain ⟨changed, placed⟩ := modified value
          have distinct := wf.distinct.perm lawful.equiv perm
          have put : Represents eop.Same ((elt.1, value) :: rest)
              (update eop.Same (fkDictGet eop dct) key value) :=
            ((wf.represents lawful).perm perm).put lawful.equiv distinct equal
          have count : dct.used = ((elt.1, value) :: rest).length := wf.count.trans perm.length_eq
          have putWf := wf.set placed wf.used_le (count.trans changed.length_eq.symm)
            (distinct.put.perm lawful.equiv changed.symm)
          exact ⟨putWf, (putWf.represents lawful).unique (put.perm changed.symm)⟩

theorem fkDictPut_absent (lawful : eop.Lawful) (wf : dct.Wf eop)
    (absent : fkDictGet eop dct key = none) (value : V) : fkDictPut eop dct key value = dct := by
  have decides := (fkDictSearch_isSome_iff lawful wf).not.mpr (Classical.not_not.mpr absent)
  unfold fkDictPut
  cases searched : fkDictSearch eop dct key with
  | mk idx result =>
      cases result with
      | none => rfl
      | some position =>
          rw [searched] at decides
          exact (decides rfl).elim

/-- What replacing does, whether or not the key was there. -/
theorem fkDictReplace_spec (lawful : eop.Lawful) (wf : dct.Wf eop) (key : K) (value : V) :
    (fkDictReplace eop dct key value).1 = (if fkDictGet eop dct key = none then 0 else 1) ∧
      (fkDictReplace eop dct key value).2.Wf eop ∧
      fkDictGet eop (fkDictReplace eop dct key value).2 =
        update eop.Same (fkDictGet eop dct) key value := by
  unfold fkDictReplace
  by_cases absent : fkDictGet eop dct key = none
  · obtain ⟨code, addedWf, _⟩ := fkDictAdd_absent lawful wf absent value
    have lookup := fkDictAdd_get lawful wf absent value
    rw [if_pos absent]
    cases added : fkDictAdd eop dct key value with
    | mk rt after =>
        rw [added] at code addedWf lookup
        cases code
        exact ⟨rfl, addedWf, lookup⟩
  · obtain ⟨code, keptWf, _⟩ := fkDictAdd_present lawful wf absent value
    have lookup := fkDictAdd_get_present lawful wf absent value
    rw [if_neg absent]
    cases kept : fkDictAdd eop dct key value with
    | mk rt after =>
        rw [kept] at code keptWf lookup
        cases code
        have stillPresent : fkDictGet eop after key ≠ none := by rwa [lookup]
        obtain ⟨putWf, put⟩ := fkDictPut_spec lawful keptWf stillPresent value
        rw [lookup] at put
        exact ⟨rfl, putWf, put⟩

/-- What removing does, whether or not the key was there. -/
theorem fkDictRemove_spec (lawful : eop.Lawful) (wf : dct.Wf eop) (key : K) :
    (fkDictRemove eop dct key).1 = (if fkDictGet eop dct key = none then .err else .ok) ∧
      (fkDictRemove eop dct key).2.Wf eop ∧
      fkDictGet eop (fkDictRemove eop dct key).2 = erase eop.Same (fkDictGet eop dct) key := by
  have represents := wf.represents lawful
  have decides : (fkDictSearch eop dct key).2.isSome ↔ fkDictGet eop dct key ≠ none :=
    fkDictSearch_isSome_iff lawful wf
  unfold fkDictRemove
  cases searched : fkDictSearch eop dct key with
  | mk idx result =>
      rw [searched] at decides
      cases result with
      | none =>
          have absent : fkDictGet eop dct key = none := by
            by_contra present
            cases decides.mpr present
          rw [if_pos absent]
          exact ⟨rfl, wf, (represents.erase_absent lawful.equiv absent).symm⟩
      | some position =>
          rw [if_neg (decides.mp rfl)]
          obtain ⟨elt, rest, _, equal, perm, erased, _⟩ := fkDictSearch_split wf searched
          have distinct := wf.distinct.perm lawful.equiv perm
          have count : dct.used = rest.length + 1 := wf.count.trans perm.length_eq
          have placed : ∀ other ∈ (chain dct.buckets idx).eraseIdx position,
              eop.place dct.sizeMask other = idx := by
            intro other member
            exact wf.placed idx other (List.mem_of_mem_eraseIdx member)
          have fits : dct.used - 1 ≤ dct.limit := Nat.le_trans (Nat.sub_le _ _) wf.used_le
          have counted : dct.used - 1 = _ :=
            (Nat.sub_eq_of_eq_add count).trans erased.length_eq.symm
          have erasedWf := wf.set placed fits counted
            (distinct.tail.perm lawful.equiv erased.symm)
          refine ⟨rfl, erasedWf, ?_⟩
          have tail := (represents.perm perm).tail lawful.equiv distinct equal
          exact (erasedWf.represents lawful).unique (tail.perm erased.symm)

theorem fkDictGet_eq_elt (eop : FkEltOp K) (dct : FkDict K V) (key : K) :
    fkDictGet eop dct key = (fkDictElt eop dct key).map Prod.snd := by
  unfold fkDictGet fkDictElt
  split <;> rfl

/-- The element that is found, and what is left when it goes or gets another value. -/
theorem fkDictElt_some (wf : dct.Wf eop) {elt : K × V} (found : fkDictElt eop dct key = some elt) :
    ∃ rest, dct.elements.Perm (elt :: rest) ∧ (fkDictRemove eop dct key).1 = .ok ∧
      (fkDictRemove eop dct key).2.elements.Perm rest ∧
      ∀ value, (fkDictPut eop dct key value).elements.Perm ((elt.1, value) :: rest) := by
  unfold fkDictElt at found
  unfold fkDictRemove fkDictPut
  cases searched : fkDictSearch eop dct key with
  | mk idx result =>
      rw [searched] at found
      cases result with
      | none => cases found
      | some position =>
          obtain ⟨other, rest, here, _, perm, erased, modified⟩ := fkDictSearch_split wf searched
          dsimp only at found
          rw [here] at found
          cases found
          exact ⟨rest, perm, rfl, erased, fun value => (modified value).1⟩

/-! ## Visiting the elements -/

/-- The elements an iterator has not returned yet. -/
def FkDictIter.left (dct : FkDict K V) (iter : FkDictIter K V) : List (K × V) :=
  (if iter.cur.isEmpty then [] else iter.next) ++ contents (dct.buckets.drop (iter.idx + 1).toNat)

theorem iterLoop_spec (length : dct.buckets.length = dct.size) {fuel : Nat} {iter : FkDictIter K V}
    (start : -1 ≤ iter.idx) (below : iter.idx < dct.size)
    (enough : (dct.size - iter.idx).toNat + (if iter.cur.isEmpty then 0 else 1) < fuel + 1) :
    match iter.left dct with
    | [] => (iterLoop dct fuel iter).1 = none
    | elt :: rest =>
        (iterLoop dct fuel iter).1 = some elt ∧ (iterLoop dct fuel iter).2.left dct = rest ∧
        -1 ≤ (iterLoop dct fuel iter).2.idx ∧ (iterLoop dct fuel iter).2.idx < dct.size := by
  induction fuel generalizing iter with
  | zero => omega
  | succ fuel ih =>
      rw [iterLoop]
      by_cases outside : iter.cur.isEmpty
      · rw [if_pos outside] at enough ⊢
        have leftEq : iter.left dct = contents (dct.buckets.drop (iter.idx + 1).toNat) := by
          rw [FkDictIter.left, if_pos outside, List.nil_append]
        by_cases ended : iter.idx + 1 = dct.size
        · have nothing : iter.left dct = [] := by
            rw [leftEq, ended, Int.toNat_natCast, ← length, List.drop_length]
            rfl
          simp only [nothing, ended, if_true]
        · have inside : (iter.idx + 1).toNat < dct.buckets.length := by omega
          have following : (iter.idx + 1 + 1).toNat = (iter.idx + 1).toNat + 1 := by omega
          simp only [if_neg ended]
          cases here : chain dct.buckets (iter.idx + 1).toNat with
          | nil =>
              have same : iter.left dct = FkDictIter.left dct
                  { iter with idx := iter.idx + 1 } := by
                rw [leftEq, contents_drop inside, here, FkDictIter.left, if_pos outside, following]
              rw [same]
              exact ih (by dsimp only; omega) (by dsimp only; omega)
                (by rw [if_pos outside]; dsimp only; omega)
          | cons elt rest =>
              have split : iter.left dct =
                  elt :: (rest ++ contents (dct.buckets.drop ((iter.idx + 1).toNat + 1))) := by
                rw [leftEq, contents_drop inside, here, List.cons_append]
              simp only [split]
              refine ⟨trivial, ?_, by omega, by omega⟩
              rw [FkDictIter.left, following]
              rfl
      · rw [if_neg outside] at enough ⊢
        have leftEq : iter.left dct =
            iter.next ++ contents (dct.buckets.drop (iter.idx + 1).toNat) := by
          rw [FkDictIter.left, if_neg outside]
        cases chained : iter.next with
        | nil =>
            have same : iter.left dct = FkDictIter.left dct ⟨iter.idx, [], []⟩ := by
              rw [leftEq, chained]
              rfl
            rw [same]
            have smaller : (dct.size - iter.idx).toNat + 0 < fuel + 1 := by omega
            exact @ih ⟨iter.idx, [], []⟩ start below smaller
        | cons elt rest =>
            have split : iter.left dct =
                elt :: (rest ++ contents (dct.buckets.drop (iter.idx + 1).toNat)) := by
              rw [leftEq, chained, List.cons_append]
            simp only [split]
            exact ⟨trivial, rfl, start, below⟩

theorem visits_eq_left (length : dct.buckets.length = dct.size) {fuel : Nat} {iter : FkDictIter K V}
    (start : -1 ≤ iter.idx) (below : iter.idx < dct.size) (enough : (iter.left dct).length < fuel) :
    visits dct fuel iter = iter.left dct := by
  induction fuel generalizing iter with
  | zero => omega
  | succ fuel ih =>
      have room : (dct.size - iter.idx).toNat + (if iter.cur.isEmpty then 0 else 1) <
          dct.size + 2 + 1 := by
        split <;> omega
      have spec := iterLoop_spec length start below room
      rw [visits, fkDictIterNext]
      cases remaining : iter.left dct with
      | nil =>
          rw [remaining] at spec
          split
          · rfl
          · next elt later called =>
              rw [called] at spec
              cases spec
      | cons elt rest =>
          rw [remaining] at spec enough
          obtain ⟨returned, later, startAfter, belowAfter⟩ := spec
          split
          · next after called =>
              rw [called] at returned
              cases returned
          · next other after called =>
              rw [called] at returned later startAfter belowAfter
              cases returned
              rw [ih startAfter belowAfter (by rw [later]; rw [List.length_cons] at enough; omega),
                later]

/-- The iterator visits every element once, in the order of the buckets. -/
theorem fkDictVisits_eq (wf : dct.Wf eop) : fkDictVisits dct = dct.elements := by
  have size := wf.size_ge
  have start : FkDictIter.left dct fkDictIterBegin = dct.elements := rfl
  have enough : (FkDictIter.left dct fkDictIterBegin).length < dct.used + 1 := by
    rw [start, wf.count]
    exact Nat.lt_succ_self _
  exact visits_eq_left wf.length (Int.le_refl (-1)) (by change (-1 : Int) < dct.size; omega) enough

theorem randomLoop_eq (length : dct.buckets.length = dct.size) {tryTimes : Nat}
    {iter : FkDictIter K V} (start : -1 ≤ iter.idx) (below : iter.idx < dct.size)
    {first : Option (K × V)} (inside : tryTimes < (iter.left dct).length) :
    randomLoop dct (tryTimes + 1) iter first = (iter.left dct)[tryTimes]? := by
  have room : (dct.size - iter.idx).toNat + (if iter.cur.isEmpty then 0 else 1) <
      dct.size + 2 + 1 := by
    split <;> omega
  have spec := iterLoop_spec length start below room
  cases remaining : iter.left dct with
  | nil =>
      rw [remaining] at inside
      cases inside
  | cons elt rest =>
      rw [remaining] at spec inside
      obtain ⟨returned, later, startAfter, belowAfter⟩ := spec
      rw [randomLoop, fkDictIterNext]
      cases tryTimes with
      | zero => exact returned
      | succ tryTimes =>
          dsimp only
          rw [List.length_cons, Nat.add_lt_add_iff_right, ← later] at inside
          rw [randomLoop_eq length startAfter belowAfter inside, later, List.getElem?_cons_succ]

/-- A count that is an `int` picks an element. -/
theorem fkDictRandom_counted (wf : dct.Wf eop) (positive : fkDictLen dct ≠ 0) (number : Nat)
    (fits : number % fkDictLen dct + 1 < 2 ^ 31) :
    ∃ elt, fkDictRandom dct number = some elt := by
  have inside : number % fkDictLen dct < fkDictLen dct := Nat.mod_lt _ (Nat.pos_of_ne_zero positive)
  have count : (toInt32 (number % fkDictLen dct + 1 : Nat)).toNat = number % fkDictLen dct + 1 := by
    rw [toInt32_natCast fits]
    exact Int.toNat_natCast _
  have size := wf.size_ge
  have left : FkDictIter.left dct fkDictIterBegin = dct.elements := rfl
  have within : number % fkDictLen dct < (FkDictIter.left dct fkDictIterBegin).length := by
    rw [left, ← wf.count]
    exact inside
  unfold fkDictRandom
  rw [if_neg positive, count, randomLoop_eq wf.length (Int.le_refl (-1))
    (by change (-1 : Int) < dct.size; omega) within]
  exact ⟨_, List.getElem?_eq_getElem within⟩

/-- Every result of `rand()` picks an element of a table that is not empty. -/
theorem fkDictRandom_some (wf : dct.Wf eop) (positive : fkDictLen dct ≠ 0)
    (small : fkDictLen dct < 2 ^ 31) (number : Nat) :
    ∃ elt, fkDictRandom dct number = some elt := by
  have inside : number % fkDictLen dct < fkDictLen dct := Nat.mod_lt _ (Nat.pos_of_ne_zero positive)
  exact fkDictRandom_counted wf positive number (by omega)

theorem fkDictRandom_mem (wf : dct.Wf eop) {number : Nat} {elt : K × V}
    (picked : fkDictRandom dct number = some elt) :
    elt ∈ dct.elements := by
  have size := wf.size_ge
  have left : FkDictIter.left dct fkDictIterBegin = dct.elements := rfl
  unfold fkDictRandom at picked
  split at picked
  · cases picked
  · next positive =>
      have inside : number % fkDictLen dct < fkDictLen dct :=
        Nat.mod_lt _ (Nat.pos_of_ne_zero positive)
      have least : (toInt32 (number % fkDictLen dct + 1 : Nat)).toNat ≤
          number % fkDictLen dct + 1 := by
        rw [toInt32, Int.bmod_def]
        split <;> omega
      cases count : (toInt32 (number % fkDictLen dct + 1 : Nat)).toNat with
      | zero =>
          rw [count] at picked
          cases picked
      | succ tryTimes =>
          have within : tryTimes < (FkDictIter.left dct fkDictIterBegin).length := by
            rw [left, ← wf.count]
            change tryTimes < fkDictLen dct
            omega
          rw [count, randomLoop_eq wf.length (Int.le_refl (-1))
            (by change (-1 : Int) < dct.size; omega) within, left] at picked
          exact List.mem_of_getElem? picked

/-! ## Dictionaries with string keys -/

/-- `db_dict_eop`: keys are the bytes of string items. -/
def dbDictEop : FkEltOp Bytes := ⟨fkStrHash, fkStrCmp⟩

theorem dbDictEop_same {first second : Bytes} : dbDictEop.Same first second ↔ first = second :=
  fkStrCmp_eq_zero_iff first second

theorem dbDictEop_lawful : dbDictEop.Lawful where
  equiv := by
    refine ⟨fun key => ?_, fun equal => ?_, fun equal also => ?_⟩
    · exact dbDictEop_same.mpr rfl
    · exact dbDictEop_same.mpr (dbDictEop_same.mp equal).symm
    · exact dbDictEop_same.mpr ((dbDictEop_same.mp equal).trans (dbDictEop_same.mp also))
  hash := by
    intro first second equal
    rw [dbDictEop_same.mp equal]

/-- Add every pair to a new dictionary. -/
def fkDictOfElts (elts : List (Bytes × V)) : FkDict Bytes V :=
  elts.foldl (fun dct elt => (fkDictAdd dbDictEop dct elt.1 elt.2).2) fkDictCreate

theorem foldl_fkDictAdd {dct : FkDict Bytes V} {elts : List (Bytes × V)} (wf : dct.Wf dbDictEop)
    (distinct : Distinct dbDictEop.Same (elts ++ dct.elements)) :
    let last := elts.foldl (fun dct elt => (fkDictAdd dbDictEop dct elt.1 elt.2).2) dct
    last.Wf dbDictEop ∧ last.elements.Perm (elts ++ dct.elements) := by
  induction elts generalizing dct with
  | nil => exact ⟨wf, .refl _⟩
  | cons elt rest ih =>
      have absent : fkDictGet dbDictEop dct elt.1 = none := by
        refine (wf.represents dbDictEop_lawful).none_iff.mpr ?_
        intro other member equal
        have apart := (List.pairwise_cons.mp distinct).1 other (List.mem_append_right rest member)
        exact apart (dbDictEop_lawful.equiv.symm equal)
      obtain ⟨_, addedWf, perm⟩ := fkDictAdd_absent dbDictEop_lawful wf absent elt.2
      have moved : (rest ++ (fkDictAdd dbDictEop dct elt.1 elt.2).2.elements).Perm
          (elt :: rest ++ dct.elements) :=
        (perm.append_left rest).trans List.perm_middle
      obtain ⟨lastWf, lastPerm⟩ := ih addedWf (distinct.perm dbDictEop_lawful.equiv moved.symm)
      exact ⟨lastWf, lastPerm.trans moved⟩

theorem fkDictOfElts_spec {elts : List (Bytes × V)} (distinct : Distinct dbDictEop.Same elts) :
    (fkDictOfElts elts).Wf dbDictEop ∧ (fkDictOfElts elts).elements.Perm elts := by
  have start : (fkDictInit : FkDict Bytes V).Wf dbDictEop := fkDictInit_wf
  have nothing : elts ++ (fkDictInit : FkDict Bytes V).elements = elts := by
    rw [fkDictInit_elements, List.append_nil]
  have built := foldl_fkDictAdd start (by rwa [nothing])
  rwa [nothing] at built

/-- A dictionary built from the elements of another one stands for the same map. -/
theorem fkDictOfElts_get {W : Type} {dct : FkDict Bytes V} (wf : dct.Wf dbDictEop)
    (change : V → W) :
    fkDictGet dbDictEop (fkDictOfElts (dct.elements.map fun elt => (elt.1, change elt.2))) =
      fun key => (fkDictGet dbDictEop dct key).map change := by
  obtain ⟨builtWf, perm⟩ := fkDictOfElts_spec (wf.distinct.map change)
  have original := (wf.represents dbDictEop_lawful).map change
  exact (builtWf.represents dbDictEop_lawful).unique (original.perm perm.symm)

/-! ## Runs of operations -/

inductive DictOp (K V : Type) where
  | add (key : K) (value : V)
  | replace (key : K) (value : V)
  | remove (key : K)
  | get (key : K)
  | empty

inductive DictAnswer (V : Type) where
  | code (rt : FkDictRt)
  | replaced (present : Nat)
  | found (value : Option V)
  | emptied
  deriving DecidableEq, Repr

def dictStep (eop : FkEltOp K) (dct : FkDict K V) : DictOp K V → DictAnswer V × FkDict K V
  | .add key value => ((fkDictAdd eop dct key value).map .code id)
  | .replace key value => ((fkDictReplace eop dct key value).map .replaced id)
  | .remove key => ((fkDictRemove eop dct key).map .code id)
  | .get key => (.found (fkDictGet eop dct key), dct)
  | .empty => (.emptied, fkDictEmpty dct)

/-- The same operations on the map itself. -/
def mapStep (eop : FkEltOp K) (found : K → Option V) : DictOp K V → DictAnswer V × (K → Option V)
  | .add key value =>
      if found key = none then (.code .ok, update eop.Same found key value) else (.code .err, found)
  | .replace key value =>
      (.replaced (if found key = none then 0 else 1), update eop.Same found key value)
  | .remove key => (.code (if found key = none then .err else .ok), erase eop.Same found key)
  | .get key => (.found (found key), found)
  | .empty => (.emptied, fun _ => none)

/-- The answers of a sequence of steps and the last state. -/
def answers {S : Type} (step : S → DictOp K V → DictAnswer V × S) :
    S → List (DictOp K V) → List (DictAnswer V) × S
  | state, [] => ([], state)
  | state, op :: rest =>
      let (answer, next) := step state op
      let (later, last) := answers step next rest
      (answer :: later, last)

theorem dictStep_spec (lawful : eop.Lawful) (wf : dct.Wf eop) (op : DictOp K V) :
    (dictStep eop dct op).2.Wf eop ∧
      (dictStep eop dct op).map id (fkDictGet eop) = mapStep eop (fkDictGet eop dct) op := by
  cases op with
  | add key value =>
      refine ⟨fkDictAdd_wf lawful wf key value, ?_⟩
      by_cases absent : fkDictGet eop dct key = none
      · rw [mapStep, if_pos absent, ← fkDictAdd_get lawful wf absent value,
          ← (fkDictAdd_absent lawful wf absent value).1]
        rfl
      · rw [mapStep, if_neg absent, ← (fkDictAdd_present lawful wf absent value).1]
        exact Prod.ext rfl (fkDictAdd_get_present lawful wf absent value)
  | replace key value =>
      obtain ⟨code, replacedWf, lookup⟩ := fkDictReplace_spec lawful wf key value
      refine ⟨replacedWf, ?_⟩
      rw [mapStep, ← code, ← lookup]
      rfl
  | remove key =>
      obtain ⟨code, removedWf, lookup⟩ := fkDictRemove_spec lawful wf key
      refine ⟨removedWf, ?_⟩
      rw [mapStep, ← code, ← lookup]
      rfl
  | get key => exact ⟨wf, rfl⟩
  | empty =>
      exact ⟨fkDictInit_wf, Prod.ext rfl (fkDictGet_init lawful)⟩

theorem answers_dictStep (lawful : eop.Lawful) (wf : dct.Wf eop) (ops : List (DictOp K V)) :
    (answers (dictStep eop) dct ops).2.Wf eop ∧
      (answers (dictStep eop) dct ops).map id (fkDictGet eop) =
        answers (mapStep eop) (fkDictGet eop dct) ops := by
  induction ops generalizing dct with
  | nil => exact ⟨wf, rfl⟩
  | cons op rest ih =>
      obtain ⟨nextWf, stepped⟩ := dictStep_spec lawful wf op
      obtain ⟨lastWf, later⟩ := ih nextWf
      refine ⟨lastWf, ?_⟩
      rw [answers, answers, ← stepped]
      dsimp only [Prod.map]
      rw [← later]
      rfl

/-- From a fresh dictionary every sequence of operations answers as the map does and
ends in a well-formed dictionary that stands for the map. -/
theorem fkDict_finite_map (lawful : eop.Lawful) (ops : List (DictOp K V)) :
    let dictRun := answers (dictStep eop) fkDictCreate ops
    let mapRun := answers (mapStep eop) (fun _ => none) ops
    dictRun.1 = mapRun.1 ∧ fkDictGet eop dictRun.2 = mapRun.2 ∧ dictRun.2.Wf eop := by
  intro dictRun mapRun
  obtain ⟨wf, run⟩ := answers_dictStep lawful
    (fkDictInit_wf : FkDict.Wf eop (fkDictInit : FkDict K V)) ops
  rw [fkDictGet_init lawful] at run
  exact ⟨congrArg Prod.fst run, congrArg Prod.snd run, wf⟩

/-- Three keys make the table grow, and the second add of one of them fails. -/
theorem fkDict_finite_map_grows :
    let ops : List (DictOp Bytes Nat) :=
      [.add [97] 1, .add [98] 2, .add [99] 3, .add [97] 4, .replace [98] 5, .remove [99], .get [98]]
    let dictRun := answers (dictStep dbDictEop) fkDictCreate ops
    dbDictEop.Lawful ∧ dictRun.1 = (answers (mapStep dbDictEop) (fun _ => none) ops).1 ∧
      dictRun.2.size = 8 ∧ dictRun.2.Wf dbDictEop := by
  intro ops dictRun
  have run := fkDict_finite_map dbDictEop_lawful ops
  exact ⟨dbDictEop_lawful, run.1, by decide, run.2.2⟩

end Freekick
