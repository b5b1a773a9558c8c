import Mathlib.Data.List.Perm.Basic
import Mathlib.Data.List.GetD
import Mathlib.Data.List.Nodup
import Mathlib.Logic.Function.Basic

/-!
# Chained buckets

An array of slots that are empty or hold a chain.  The contents are the chains
in slot order; a chain changes in place, and pushing items to the slots a
placement gives them keeps every item where the placement looks for it.
-/

namespace Freekick.Lib.Buckets

variable {A : Type} {slots : List (Option (List A))} {place : A → Nat} {index : Nat}

def chain (slots : List (Option (List A))) (index : Nat) : List A :=
  (slots.getD index none).getD []

def contents (slots : List (Option (List A))) : List A :=
  (slots.map fun slot => slot.getD []).flatten

/-- Every item is in the chain of the slot that the placement gives it. -/
def Placed (place : A → Nat) (slots : List (Option (List A))) : Prop :=
  ∀ index, ∀ item ∈ chain slots index, place item = index

/-- Put an item at the head of its chain. -/
def push (place : A → Nat) (slots : List (Option (List A))) (item : A) : List (Option (List A)) :=
  slots.set (place item) (some (item :: chain slots (place item)))

theorem chain_set_same (inside : index < slots.length) (items : List A) :
    chain (slots.set index (some items)) index = items := by
  simp [chain, List.getD, List.getElem?_set_self inside]

theorem chain_set_other {wanted : Nat} (apart : index ≠ wanted) (items : List A) :
    chain (slots.set index (some items)) wanted = chain slots wanted := by
  simp [chain, List.getD, List.getElem?_set_ne apart]

theorem inside_of_mem {item : A} (member : item ∈ chain slots index) : index < slots.length := by
  by_contra outside
  rw [chain, List.getD_eq_default _ _ (Nat.le_of_not_lt outside)] at member
  cases member

theorem contents_drop (inside : index < slots.length) :
    contents (slots.drop index) = chain slots index ++ contents (slots.drop (index + 1)) := by
  rw [List.drop_eq_getElem_cons inside, chain, List.getD_eq_getElem _ _ inside]
  rfl

/-- The slots with an image of every item. -/
def mapSlots {B : Type} (image : A → B) (slots : List (Option (List A))) : List (Option (List B)) :=
  slots.map (Option.map (List.map image))

theorem chain_mapSlots {B : Type} (image : A → B) :
    chain (mapSlots image slots) index = (chain slots index).map image := by
  rw [chain, chain, mapSlots]
  simp only [List.getD, List.getElem?_map]
  cases slots[index]? with
  | none => rfl
  | some slot => cases slot <;> rfl

theorem contents_mapSlots {B : Type} (image : A → B) :
    contents (mapSlots image slots) = (contents slots).map image := by
  rw [contents, contents, mapSlots, List.map_flatten, List.map_map, List.map_map]
  congr 1
  refine List.map_congr_left fun slot _ => ?_
  cases slot <;> rfl

theorem mapSlots_set {B : Type} (image : A → B) (items : List A) :
    mapSlots image (slots.set index (some items)) = (mapSlots image slots).set index
      (some (items.map image)) := List.map_set ..

theorem mem_contents_iff {item : A} : item ∈ contents slots ↔
    ∃ index, item ∈ chain slots index := by
  unfold contents chain
  rw [List.mem_flatten]
  constructor
  · rintro ⟨items, member, inItems⟩
    obtain ⟨slot, inSlots, rfl⟩ := List.mem_map.mp member
    obtain ⟨index, inside, rfl⟩ := List.mem_iff_getElem.mp inSlots
    refine ⟨index, ?_⟩
    rwa [List.getD_eq_getElem _ _ inside]
  · rintro ⟨index, inChain⟩
    by_cases inside : index < slots.length
    · rw [List.getD_eq_getElem _ _ inside] at inChain
      exact ⟨_, List.mem_map.mpr ⟨_, List.getElem_mem inside, rfl⟩, inChain⟩
    · rw [List.getD_eq_default _ _ (Nat.le_of_not_lt inside)] at inChain
      cases inChain

/-- A chain is a piece of the contents, and setting it changes that piece only. -/
theorem contents_split (inside : index < slots.length) :
    ∃ front back, contents slots = front ++ (chain slots index ++ back) ∧
      ∀ items, contents (slots.set index (some items)) = front ++ (items ++ back) := by
  have around : ∀ slot : Option (List A),
      contents (slots.take index ++ slot :: slots.drop (index + 1)) =
        contents (slots.take index) ++ (slot.getD [] ++ contents (slots.drop (index + 1))) := by
    intro slot
    unfold contents
    rw [List.map_append, List.map_cons, List.flatten_append, List.flatten_cons]
  refine ⟨contents (slots.take index), contents (slots.drop (index + 1)), ?_, ?_⟩
  · rw [chain, List.getD_eq_getElem _ _ inside, ← around, ← List.drop_eq_getElem_cons inside,
      List.take_append_drop]
  · intro items
    rw [List.set_eq_take_append_cons_drop, if_pos inside]
    exact around (some items)

theorem chain_sublist (slots : List (Option (List A))) (index : Nat) :
    (chain slots index).Sublist (contents slots) := by
  by_cases inside : index < slots.length
  · obtain ⟨front, back, whole, _⟩ := contents_split inside
    rw [whole]
    exact (List.sublist_append_left ..).trans (List.sublist_append_right ..)
  · rw [chain, List.getD_eq_default _ _ (Nat.le_of_not_lt inside)]
    exact List.nil_sublist _

/-- Different chains have no item in common. -/
theorem chain_disjoint {other : Nat} (nodup : (contents slots).Nodup) (apart : index ≠ other) :
    (chain slots index).Disjoint (chain slots other) := by
  have pairs := (List.nodup_flatten.mp nodup).2
  have sorted : ∀ first second, first < second →
      (chain slots first).Disjoint (chain slots second) := by
    intro first second less item inFirst inSecond
    have inside := inside_of_mem inSecond
    have disjoint := List.pairwise_iff_getElem.mp pairs first second
      (by rw [List.length_map]; omega) (by rwa [List.length_map]) less
    rw [List.getElem_map, List.getElem_map] at disjoint
    rw [chain, List.getD_eq_getElem _ _ (by omega)] at inFirst
    rw [chain, List.getD_eq_getElem _ _ inside] at inSecond
    exact disjoint inFirst inSecond
  rcases Nat.lt_or_gt_of_ne apart with less | greater
  · exact sorted _ _ less
  · exact fun item inFirst inSecond => sorted _ _ greater inSecond inFirst

theorem Placed.set (placed : Placed place slots) {items : List A}
    (same : ∀ item ∈ items, place item = index) : Placed place (slots.set index (some items)) := by
  intro wanted item member
  by_cases apart : index = wanted
  · subst apart
    by_cases inside : index < slots.length
    · rw [chain_set_same inside] at member
      exact same item member
    · rw [List.set_eq_of_length_le (Nat.le_of_not_lt inside)] at member
      exact placed index item member
  · rw [chain_set_other apart] at member
    exact placed wanted item member

theorem Placed.mem_chain (placed : Placed place slots) {item : A} (member : item ∈ contents slots) :
    item ∈ chain slots (place item) := by
  obtain ⟨index, inChain⟩ := mem_contents_iff.mp member
  rwa [placed index item inChain]

theorem contents_replicate (count : Nat) :
    contents (List.replicate count (none : Option (List A))) = [] := by
  simp [contents]

theorem placed_replicate (count : Nat) :
    Placed place (List.replicate count (none : Option (List A))) := by
  intro index item member
  have empty := mem_contents_iff.mpr ⟨index, member⟩
  rw [contents_replicate] at empty
  cases empty

/-! ## Pushing -/

theorem length_push (item : A) : (push place slots item).length = slots.length :=
  List.length_set

theorem Placed.push (placed : Placed place slots) (item : A) :
    Placed place (push place slots item) := by
  apply placed.set
  intro member inChain
  rcases List.mem_cons.mp inChain with rfl | earlier
  · rfl
  · exact placed _ member earlier

theorem contents_push {item : A} (inside : place item < slots.length) :
    (contents (push place slots item)).Perm (item :: contents slots) := by
  obtain ⟨front, back, whole, changed⟩ := contents_split inside
  rw [push, changed, whole]
  exact List.perm_middle

theorem foldl_push (fits : ∀ item, place item < slots.length) (placed : Placed place slots)
    (items : List A) :
    (items.foldl (push place) slots).length = slots.length ∧
      Placed place (items.foldl (push place) slots) ∧
      (contents (items.foldl (push place) slots)).Perm (items ++ contents slots) := by
  induction items generalizing slots with
  | nil => exact ⟨rfl, placed, .refl _⟩
  | cons item rest ih =>
      have stillFits : ∀ other, place other < (push place slots item).length := by
        intro other
        rw [length_push]
        exact fits other
      obtain ⟨length, kept, perm⟩ := ih stillFits (placed.push item)
      refine ⟨length.trans (length_push item), kept, perm.trans ?_⟩
      exact ((contents_push (fits item)).append_left rest).trans List.perm_middle

theorem length_foldl_push (items : List A) :
    (items.foldl (push place) slots).length = slots.length := by
  induction items generalizing slots with
  | nil => rfl
  | cons item rest ih => exact ih.trans (length_push item)

theorem contents_foldl_push (fits : ∀ item, place item < slots.length) (items : List A) :
    (contents (items.foldl (push place) slots)).Perm (items ++ contents slots) := by
  induction items generalizing slots with
  | nil => exact .refl _
  | cons item rest ih =>
      have stillFits : ∀ other, place other < (push place slots item).length := by
        intro other
        rw [length_push]
        exact fits other
      exact (ih stillFits).trans
        (((contents_push (fits item)).append_left rest).trans List.perm_middle)

/-! ## Images -/

section Images

variable {B : Type} {front back : List A} {item : A}

theorem mapSlots_replicate (image : A → B) (count : Nat) :
    mapSlots image (List.replicate count none) = List.replicate count none := List.map_replicate ..

theorem mapSlots_push (image : A → B) (toSlot : B → Nat) (item : A) :
    mapSlots image (push (fun item => toSlot (image item)) slots item) = push toSlot
      (mapSlots image slots) (image item) := by
  rw [push, push, mapSlots_set, chain_mapSlots, List.map_cons]

theorem mapSlots_foldl_push (image : A → B) (toSlot : B → Nat) (items : List A)
    (slots : List (Option (List A))) :
    mapSlots image (items.foldl (push fun item => toSlot (image item)) slots) =
      (items.map image).foldl (push toSlot) (mapSlots image slots) := by
  induction items generalizing slots with
  | nil => rfl
  | cons item rest ih => rw [List.foldl_cons, ih, mapSlots_push, List.map_cons, List.foldl_cons]

theorem mapSlots_congr {image other : A → B}
    (same : ∀ item ∈ contents slots, image item = other item) :
    mapSlots image slots = mapSlots other slots := by
  refine List.map_congr_left fun slot member => ?_
  cases slot with
  | none => rfl
  | some items =>
      refine congrArg some (List.map_congr_left fun item inside => same item ?_)
      exact List.mem_flatten.mpr ⟨items, List.mem_map.mpr ⟨some items, member, rfl⟩, inside⟩

/-- An update of an item does not matter to lists without it. -/
theorem update_of_absent [DecidableEq A] {image : A → B} {new : B} {items : List A}
    (absent : item ∉ items) :
    ∀ other ∈ items, Function.update image item new other = image other := by
  intro other member
  refine Function.update_of_ne ?_ ..
  rintro rfl
  exact absent member

/-- An item is taken out of its chain. -/
theorem contents_remove (here : chain slots index = front ++ item :: back) :
    (contents slots).Perm (item :: contents (slots.set index (some (front ++ back)))) := by
  have inside : index < slots.length :=
    inside_of_mem (here ▸ List.mem_append_right _ (List.mem_cons_self ..))
  obtain ⟨before, behind, whole, changed⟩ := contents_split inside
  rw [here] at whole
  rw [whole, changed]
  simp only [List.append_assoc, List.cons_append]
  exact (List.perm_middle.append_left before).trans List.perm_middle

/-- One item gets another image. -/
theorem mapSlots_update [DecidableEq A] (nodup : (contents slots).Nodup)
    (here : chain slots index = front ++ item :: back) (image : A → B) (new : B) :
    mapSlots (Function.update image item new) slots =
      (mapSlots image slots).set index (some (front.map image ++ new :: back.map image)) := by
  have inside : index < slots.length :=
    inside_of_mem (here ▸ List.mem_append_right _ (List.mem_cons_self ..))
  have perm := contents_remove here
  obtain ⟨absent, _⟩ := List.nodup_cons.mp (perm.nodup_iff.mp nodup)
  have others : ∀ other ∈ contents (slots.set index (some (front ++ back))),
      Function.update image item new other = image other :=
    update_of_absent absent
  have around : ∀ other ∈ front ++ back, Function.update image item new other = image other := by
    refine fun other member => others other (mem_contents_iff.mpr ⟨index, ?_⟩)
    rwa [chain_set_same inside]
  have slot : slots[index] = some (front ++ item :: back) := by
    rw [chain, List.getD_eq_getElem _ _ inside] at here
    cases stored : slots[index] with
    | none =>
        rw [stored] at here
        exact absurd (congrArg List.length here) (by simp)
    | some items =>
        rw [stored] at here
        exact congrArg some here
  have same := mapSlots_congr others
  rw [mapSlots_set, mapSlots_set] at same
  have whole : mapSlots (Function.update image item new) slots =
      (mapSlots (Function.update image item new) slots).set index
      (some ((front ++ item :: back).map (Function.update image item new))) := by
    rw [← mapSlots_set, ← slot, List.set_getElem_self]
  have split : (front ++ item :: back).map (Function.update image item new) = front.map image ++
      new :: back.map image := by
    rw [List.map_append, List.map_cons, Function.update_self,
      List.map_congr_left fun other member => around other (List.mem_append_left _ member),
      List.map_congr_left fun other member => around other (List.mem_append_right _ member)]
  have reset :=
    congrArg (fun slots => slots.set index (some (front.map image ++ new :: back.map image))) same
  rw [List.set_set, List.set_set] at reset
  rw [whole, split, reset]

end Images

end Freekick.Lib.Buckets
