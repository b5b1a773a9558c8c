import Mathlib.Data.Set.Insert
import Freekick.Refs.Items

/-!
# Exact reference counts

The slots of lists and dictionaries are inside of items.  Every other reference is a claim from
outside: a slot of a database, an argument of a connection, or a reference that is taken but not
stored yet.  The count of an item is the number of slots inside and claims outside, and an item
without a reference is fresh or about to be destroyed.  Each operation moves claims.
-/

namespace Freekick.Refs

open Lib Lib.Call

namespace Content

variable (content : Content)

def IsStr (id : Nat) : Prop := ∃ bytes, content id = some (.str, .str bytes)

/-- What is in the entity is of the right type. -/
structure Typed (entity : Entity) : Prop where
  slots : ∀ slot ∈ entity.slots, content.IsStr slot
  fields : ∀ fields, entity = .dict fields → fields.Wf content.eop

theorem eop_same {first second : Nat} : content.eop.Same first second ↔
    content.strOf first = content.strOf second :=
  fkStrCmp_eq_zero_iff _ _

theorem eop_lawful : content.eop.Lawful where
  equiv := by
    refine ⟨fun _ => ?_, fun equal => ?_, fun equal also => ?_⟩
    · exact content.eop_same.mpr rfl
    · exact content.eop_same.mpr (content.eop_same.mp equal).symm
    · exact content.eop_same.mpr ((content.eop_same.mp equal).trans (content.eop_same.mp also))
  hash := fun equal => congrArg fkStrHash (content.eop_same.mp equal)

variable {content} {other : Content}

theorem IsStr.strOf {id : Nat} (is : content.IsStr id) :
    content id = some (.str, .str (content.strOf id)) := by
  obtain ⟨bytes, found⟩ := is
  rw [found, Content.strOf, found]

theorem IsStr.of_eq {id : Nat} (is : content.IsStr id) (same : other id = content id) :
    other.IsStr id := by
  obtain ⟨bytes, found⟩ := is
  exact ⟨bytes, same.trans found⟩

end Content

/-- Keys that are as before keep their places. -/
theorem wf_withKeys {V : Type} {content other : Content} {dct : FkDict Nat V}
    (wf : dct.Wf content.eop)
    (same : ∀ elt ∈ dct.elements, other.strOf elt.1 = content.strOf elt.1) : dct.Wf other.eop where
  size_pow := wf.size_pow
  mask := wf.mask
  limit := wf.limit
  used_le := wf.used_le
  count := wf.count
  length := wf.length
  placed := by
    intro index elt member
    have there := same elt (Lib.Buckets.mem_contents_iff.mpr ⟨index, member⟩)
    rw [← wf.placed index elt member]
    unfold FkEltOp.place Content.eop
    dsimp only
    rw [there]
  distinct := by
    refine wf.distinct.imp_of_mem fun first second apart equal => apart ?_
    rw [content.eop_same, ← same _ first, ← same _ second]
    exact other.eop_same.mp equal

theorem key_mem_slots {fields : FkDict Nat Nat} {elt : Nat × Nat} (member : elt ∈ fields.elements) :
    elt.1 ∈ dictSlots fields :=
  List.mem_flatMap.mpr ⟨elt, member, List.mem_cons_self ..⟩

/-- An entity is well typed as long as its slots are as before. -/
theorem Content.Typed.of_eq {content other : Content} {entity : Entity}
    (typed : content.Typed entity) (same : ∀ slot ∈ entity.slots, other slot = content slot) :
    other.Typed entity := by
  refine ⟨fun slot member => (typed.slots slot member).of_eq (same slot member), ?_⟩
  rintro fields rfl
  refine wf_withKeys (typed.fields fields rfl) fun elt member => ?_
  rw [Content.strOf, Content.strOf, same elt.1 (key_mem_slots member)]

/-- References that come on top. -/
def plus (claims : Nat → Nat) (ids : List Nat) : Nat → Nat := fun id => claims id + ids.count id

@[simp]
theorem plus_nil (claims : Nat → Nat) : plus claims [] = claims := rfl

theorem plus_append (claims : Nat → Nat) (first second : List Nat) :
    plus claims (first ++ second) = plus (plus claims first) second := by
  funext id
  unfold plus
  rw [List.count_append, Nat.add_assoc]

theorem plus_perm (claims : Nat → Nat) {first second : List Nat} (perm : first.Perm second) :
    plus claims first = plus claims second := by
  funext id
  unfold plus
  rw [perm.count_eq]

namespace FkItems

variable {items : FkItems} {claims : Nat → Nat} {fresh : Set Nat} {id other : Nat} {item : FkItem}

def refOf (items : FkItems) (id : Nat) : Nat := items.used.weightAt id FkItem.ref

/-- How many slots inside of items hold the item. -/
def inner (items : FkItems) (id : Nat) : Nat :=
  items.used.total fun item => item.entity.slots.count id

structure Exact (items : FkItems) (claims : Nat → Nat) (fresh : Set Nat) : Prop where
  refs : ∀ id, items.refOf id = items.inner id + claims id
  zero : ∀ id, (items.content id).isSome = true → (items.refOf id = 0 ↔ id ∈ fresh)
  live : ∀ id ∈ fresh, (items.content id).isSome = true
  typed : ∀ id type entity, items.content id = some (type, entity) → type = entity.type ∧
    items.content.Typed entity
  free : ∀ id ∈ items.free, items.content id = none
  nodup : items.free.Nodup

/-- Only items that were in use are, and they are as they were. -/
def Shrinks (before after : FkItems) : Prop :=
  ∀ id found, after.content id = some found → before.content id = some found

theorem content_eq (found : items.used.find id = some item) :
    items.content id = some (item.type, item.entity) := by
  rw [content, found]
  rfl

theorem refOf_eq (found : items.used.find id = some item) : items.refOf id = item.ref := by
  rw [refOf, Objects.weightAt, found]
  rfl

theorem find_of_content (there : (items.content id).isSome = true) :
    ∃ item, items.used.find id = some item := by
  unfold content at there
  cases found : items.used.find id with
  | none =>
      rw [found] at there
      cases there
  | some item => exact ⟨item, rfl⟩

theorem find_of_refOf (positive : items.refOf id ≠ 0) : ∃ item, items.used.find id = some item := by
  cases found : items.used.find id with
  | none =>
      refine (positive ?_).elim
      rw [refOf, Objects.weightAt, found]
      rfl
  | some item => exact ⟨item, rfl⟩

/-! ## One item is changed -/

/-- The items with another state of one of them. -/
def withItem (items : FkItems) (id : Nat) (item : FkItem) : FkItems :=
  { items with used := items.used.put id item }

theorem content_withItem : (items.withItem id item).content = Function.update items.content id
    (some (item.type, item.entity)) := by
  funext other
  unfold content withItem
  rw [Objects.find_put]
  by_cases same : other = id
  · rw [same, Function.update_self, Function.update_self]
    rfl
  · rw [Function.update_of_ne same, Function.update_of_ne same]

theorem refOf_withItem : (items.withItem id item).refOf = Function.update items.refOf id
    item.ref := by
  funext other
  unfold refOf withItem Objects.weightAt
  rw [Objects.find_put]
  by_cases same : other = id
  · rw [same, Function.update_self, Function.update_self]
    rfl
  · rw [Function.update_of_ne same, Function.update_of_ne same]

theorem inner_withItem {old : FkItem} (found : items.used.find id = some old) (other : Nat) :
    (items.withItem id item).inner other + old.entity.slots.count other = items.inner other +
      item.entity.slots.count other := by
  have whole := items.used.total_put id item fun item => item.entity.slots.count other
  rw [Objects.weightAt, found] at whole
  exact whole

theorem inner_newItem (unused : items.used.find id = none) (other : Nat) :
    (items.withItem id item).inner other = items.inner other + item.entity.slots.count other := by
  have whole := items.used.total_put id item fun item => item.entity.slots.count other
  rw [Objects.weightAt, unused] at whole
  exact whole

/-- An item with another count. -/
theorem withRef_content {ref : Nat} (found : items.used.find id = some item) :
    (items.withItem id { item with ref := ref }).content = items.content := by
  rw [content_withItem, ← content_eq found, Function.update_eq_self]

theorem withRef_inner {ref : Nat} (found : items.used.find id = some item) :
    (items.withItem id { item with ref := ref }).inner = items.inner := by
  funext other
  have whole := @inner_withItem items id { item with ref := ref } item found other
  dsimp only at whole
  omega

theorem Exact.withRef {ref : Nat} {claims' : Nat → Nat} {fresh' : Set Nat}
    (exact' : items.Exact claims fresh) (found : items.used.find id = some item)
    (here : ref + claims id = item.ref + claims' id)
    (there : ∀ other, other ≠ id → claims' other = claims other) (zero : ref = 0 ↔ id ∈ fresh')
    (others : ∀ other, other ≠ id → (other ∈ fresh' ↔ other ∈ fresh)) :
    (items.withItem id { item with ref := ref }).Exact claims' fresh' where
  refs := by
    intro other
    rw [refOf_withItem, withRef_inner found]
    have was := exact'.refs other
    by_cases same : other = id
    · rw [same, Function.update_self]
      rw [same, refOf_eq found] at was
      dsimp only
      omega
    · rw [Function.update_of_ne same, there other same]
      exact was
  zero := by
    intro other live
    rw [withRef_content found] at live
    rw [refOf_withItem]
    by_cases same : other = id
    · rw [same, Function.update_self]
      exact zero
    · rw [Function.update_of_ne same, others other same]
      exact exact'.zero other live
  live := by
    intro other isFresh
    rw [withRef_content found]
    by_cases same : other = id
    · rw [same, content_eq found]
      rfl
    · exact exact'.live other ((others other same).mp isFresh)
  typed := by
    rw [withRef_content found]
    exact exact'.typed
  free := by
    rw [withRef_content found]
    exact exact'.free
  nodup := exact'.nodup

theorem Exact.find_of_claim (exact' : items.Exact claims fresh) (claimed : 0 < claims id) :
    ∃ item, items.used.find id = some item ∧ 0 < item.ref := by
  have counted := exact'.refs id
  obtain ⟨item, found⟩ := @find_of_refOf items id (by omega)
  rw [refOf_eq found] at counted
  exact ⟨item, found, by omega⟩

/-- `fk_item_inc_ref`; a fresh item is not fresh any more. -/
theorem fkItemIncRef_exact (exact' : items.Exact claims fresh)
    (live : (items.content id).isSome = true) :
    ∃ after, fkItemIncRef id items = .ok () after ∧ after.Exact (plus claims [id]) (fresh \ {id}) ∧
      after.content = items.content := by
  obtain ⟨item, found⟩ := find_of_content live
  refine ⟨items.withItem id { item with ref := item.ref + 1 }, ?_, ?_, withRef_content found⟩
  · unfold fkItemIncRef
    rw [found]
    rfl
  · refine exact'.withRef found ?_ (fun other apart => ?_) ?_ fun other apart => ?_
    · rw [plus, List.count_singleton_self]
      omega
    · rw [plus, List.count_singleton, beq_false_of_ne apart.symm]
      rfl
    · exact iff_of_false (Nat.succ_ne_zero _) fun both => both.2 rfl
    · exact and_iff_left apart

/-- A claim is given up; the item that has no other reference is about to be destroyed. -/
theorem countDown_exact (exact' : items.Exact (plus claims [id]) fresh) :
    ∃ item after, items.used.find id = some item ∧ after.content = items.content ∧
      (countDown id items = .ok none after ∧ after.Exact claims fresh ∨
        countDown id items = .ok (some { item with ref := 0 }) after ∧
        after.Exact claims (insert id fresh) ∧ id ∉ fresh) := by
  have claimed : 0 < plus claims [id] id := by
    rw [plus, List.count_singleton_self]
    exact Nat.succ_pos _
  obtain ⟨item, found, positive⟩ := exact'.find_of_claim claimed
  have here : item.ref - 1 + plus claims [id] id = item.ref + claims id := by
    rw [plus, List.count_singleton_self]
    omega
  have there : ∀ other, other ≠ id → claims other = plus claims [id] other := by
    intro other apart
    rw [plus, List.count_singleton, beq_false_of_ne apart.symm]
    rfl
  have notFresh : id ∉ fresh := by
    rw [← exact'.zero id (by rw [content_eq found]; rfl), refOf_eq found]
    omega
  have called : countDown id items = .ok
      (if 0 < item.ref - 1 then none else some { item with ref := item.ref - 1 })
      (items.withItem id { item with ref := item.ref - 1 }) := by
    unfold countDown
    rw [found]
    rfl
  refine ⟨item, items.withItem id { item with ref := item.ref - 1 }, found,
    withRef_content found, ?_⟩
  rw [called]
  by_cases more : 0 < item.ref - 1
  · rw [if_pos more]
    refine .inl ⟨rfl, exact'.withRef found here there ?_ fun _ _ => Iff.rfl⟩
    exact iff_of_false (by omega) notFresh
  · have last : item.ref - 1 = 0 := by omega
    rw [if_neg more, last]
    rw [last] at here
    refine .inr ⟨rfl, exact'.withRef found here there (iff_of_true rfl (Set.mem_insert ..))
      fun other apart => ?_, notFresh⟩
    exact Set.mem_insert_iff.trans (or_iff_right apart)

/-! ## The slots of one item are changed -/

/-- A change that leaves the strings alone. -/
theorem update_notStr {content : Content} {type : FkItemType} {old new : Entity}
    (there : content id = some (type, old)) (notStr : old.type ≠ .str) (slot : Nat)
    (is : content.IsStr slot) :
    Function.update content id (some (type, new)) slot = content slot := by
  refine Function.update_of_ne ?_ _ _
  rintro rfl
  obtain ⟨bytes, isStr⟩ := is
  rw [there] at isStr
  obtain ⟨_, rfl⟩ := Prod.mk.inj (Option.some.inj isStr)
  exact notStr rfl

/-- The slots of an item are others, and claims make up for them. -/
theorem setEntity_exact {type : FkItemType} {old new : Entity} {added gone : List Nat}
    (exact' : items.Exact (plus claims added) fresh) (there : items.content id = some (type, old))
    (same : new.type = old.type)
    (strs : ∀ slot, items.content.IsStr slot →
      Function.update items.content id (some (type, new)) slot = items.content slot)
    (slots : ∀ slot, new.slots.count slot + gone.count slot = old.slots.count slot +
      added.count slot)
    (typed : items.content.Typed new) :
    ∃ after, setEntity id new items = .ok () after ∧ after.Exact (plus claims gone) fresh ∧
      after.content = Function.update items.content id (some (type, new)) := by
  obtain ⟨item, found⟩ := find_of_content (by rw [there]; rfl)
  have known := content_eq found
  rw [there] at known
  obtain ⟨rfl, rfl⟩ := Prod.mk.inj (Option.some.inj known)
  have after := @content_withItem items id { item with entity := new }
  have entities : ∀ {entity}, items.content.Typed entity →
      (items.withItem id { item with entity := new }).content.Typed entity := by
    intro entity typed
    refine typed.of_eq fun slot member => ?_
    rw [after]
    exact strs slot (typed.slots slot member)
  refine ⟨items.withItem id { item with entity := new }, ?_,
    ⟨?_, ?_, ?_, ?_, ?_, exact'.nodup⟩, after⟩
  · unfold setEntity
    rw [found]
    rfl
  · intro slot
    have was := exact'.refs slot
    have moved := @inner_withItem items id { item with entity := new } item found slot
    have both := slots slot
    have ref : (items.withItem id { item with entity := new }).refOf slot = items.refOf slot := by
      rw [refOf_withItem, ← refOf_eq found, Function.update_eq_self]
    rw [ref, was]
    unfold plus
    dsimp only at moved
    omega
  · intro slot live
    rw [refOf_withItem, ← refOf_eq found, Function.update_eq_self]
    refine exact'.zero slot ?_
    rw [after] at live
    by_cases equal : slot = id
    · rw [equal, there]
      rfl
    · rw [Function.update_of_ne equal] at live
      exact live
  · intro slot isFresh
    rw [after]
    by_cases equal : slot = id
    · rw [equal, Function.update_self]
      rfl
    · rw [Function.update_of_ne equal]
      exact exact'.live slot isFresh
  · intro slot slotType entity is
    rw [after] at is
    by_cases equal : slot = id
    · rw [equal, Function.update_self] at is
      cases is
      exact ⟨(exact'.typed id _ _ there).1.trans same.symm, entities typed⟩
    · rw [Function.update_of_ne equal] at is
      exact ⟨(exact'.typed slot slotType entity is).1,
        entities (exact'.typed slot slotType entity is).2⟩
  · intro slot isFree
    have none := exact'.free slot isFree
    rw [after, Function.update_of_ne, none]
    rintro rfl
    rw [there] at none
    cases none

/-! ## Making and destroying items -/

theorem inner_pos {type : FkItemType} {entity : Entity}
    (there : items.content other = some (type, entity))
    (member : id ∈ entity.slots) : 0 < items.inner id := by
  obtain ⟨item, found⟩ := find_of_content (by rw [there]; rfl)
  have known := content_eq found
  rw [there] at known
  obtain ⟨rfl, rfl⟩ := Prod.mk.inj (Option.some.inj known)
  have least := items.used.weightAt_le_total other fun item => item.entity.slots.count id
  rw [Objects.weightAt, found] at least
  exact Nat.lt_of_lt_of_le (List.count_pos_iff.mpr member) least

theorem Exact.unheld (exact' : items.Exact claims fresh) (isFresh : id ∈ fresh) :
    items.inner id = 0 ∧ claims id = 0 := by
  have zero := (exact'.zero id (exact'.live id isFresh)).mpr isFresh
  have counted := exact'.refs id
  omega

/-- An item that no slot holds goes. -/
theorem drop_exact {type : FkItemType} {entity : Entity}
    (exact' : items.Exact claims (insert id fresh)) (notFresh : id ∉ fresh)
    (there : items.content id = some (type, entity)) (empty : entity.slots = []) :
    ∃ after, drop id items = .ok () after ∧ after.Exact claims fresh ∧ Shrinks items after ∧
      after.content id = none := by
  obtain ⟨item, found⟩ := find_of_content (by rw [there]; rfl)
  have known := content_eq found
  rw [there] at known
  obtain ⟨rfl, rfl⟩ := Prod.mk.inj (Option.some.inj known)
  obtain ⟨unheld, unclaimed⟩ := exact'.unheld (Set.mem_insert id fresh)
  generalize final : ({ items with
    used := items.used.drop id
    free := if items.free.length = fkFreeItemMax then items.free else items.free ++ [id] } :
    FkItems) = after
  have content : after.content = Function.update items.content id none := by
    funext other
    rw [← final]
    unfold FkItems.content
    rw [Objects.find_drop]
    by_cases same : other = id
    · rw [same, Function.update_self, Function.update_self]
      rfl
    · rw [Function.update_of_ne same, Function.update_of_ne same]
  have refs : ∀ other, after.refOf other = if other = id then 0 else items.refOf other := by
    intro other
    rw [← final]
    unfold refOf Objects.weightAt
    rw [Objects.find_drop]
    split
    · next same => rw [same, Function.update_self]; rfl
    · next apart => rw [Function.update_of_ne apart]
  have inner : after.inner = items.inner := by
    funext other
    have whole := items.used.total_drop id fun item => item.entity.slots.count other
    rw [Objects.weightAt, found, Option.elim_some, empty] at whole
    rw [← final]
    exact whole
  have others : ∀ {slot}, 0 < items.inner slot → after.content slot = items.content slot := by
    intro slot held
    rw [content, Function.update_of_ne]
    rintro rfl
    omega
  have shrinks : Shrinks items after := by
    intro other value is
    rw [content] at is
    by_cases same : other = id
    · rw [same, Function.update_self] at is
      cases is
    · rw [Function.update_of_ne same] at is
      exact is
  refine ⟨after, by rw [← final]; rfl, ⟨?_, ?_, ?_, ?_, ?_, ?_⟩, shrinks,
    by rw [content, Function.update_self]⟩
  · intro other
    rw [refs, inner]
    split
    · next same => rw [same, unheld, unclaimed]
    · exact exact'.refs other
  · intro other live
    have apart : other ≠ id := by
      rintro rfl
      rw [content, Function.update_self] at live
      cases live
    rw [content, Function.update_of_ne apart] at live
    rw [refs, if_neg apart, exact'.zero other live]
    exact Set.mem_insert_iff.trans (or_iff_right apart)
  · intro other isFresh
    rw [content, Function.update_of_ne]
    · exact exact'.live other (Set.mem_insert_of_mem id isFresh)
    · rintro rfl
      exact notFresh isFresh
  · intro other type entity is
    have was := shrinks other _ is
    obtain ⟨same, typed⟩ := exact'.typed other type entity was
    exact ⟨same, typed.of_eq fun slot member => others (inner_pos was member)⟩
  · intro other isFree
    rw [← final] at isFree
    have either : other ∈ items.free ∨ other = id := by
      dsimp only at isFree
      split at isFree
      · exact .inl isFree
      · rcases List.mem_append.mp isFree with old | new
        · exact .inl old
        · exact .inr (List.mem_singleton.mp new)
    rw [content]
    by_cases same : other = id
    · rw [same, Function.update_self]
    · rw [Function.update_of_ne same]
      exact exact'.free other (either.resolve_right same)
  · rw [← final]
    dsimp only
    split
    · exact exact'.nodup
    · refine List.nodup_append.mpr ⟨exact'.nodup, List.nodup_singleton id,
        fun old isFree new only same => ?_⟩
      have gone := exact'.free old isFree
      rw [same, List.mem_singleton.mp only, there] at gone
      cases gone

theorem newAddress_unused (items : FkItems) :
    items.used.find items.newAddress = none ∧ items.newAddress ∉ items.free := by
  have beyond : items.newAddress ∉ items.used.live ∪ items.free.toFinset := by
    intro member
    have below := @Finset.le_sup Nat Nat _ _ _ (fun address => address) _ member
    unfold newAddress at below
    omega
  rw [Finset.mem_union, not_or, List.mem_toFinset] at beyond
  refine ⟨?_, beyond.2⟩
  rw [← Option.not_isSome_iff_eq_none, ← items.used.live_iff]
  exact beyond.1

/-- An item is made of claims and has no reference yet. -/
theorem newItem_exact {entity : Entity} {rest : List Nat}
    (exact' : items.Exact (plus claims entity.slots) fresh)
    (typed : items.content.Typed entity) (unused : items.used.find id = none)
    (free : ∀ other ∈ rest, other ∈ items.free) (nodup : rest.Nodup) (apart : id ∉ rest) :
    let after : FkItems :=
      { items with used := items.used.put id ⟨entity.type, 0, entity⟩, free := rest }
    after.Exact claims (insert id fresh) ∧
      after.content = Function.update items.content id (some (entity.type, entity)) := by
  intro after
  have none : items.content id = none := by
    rw [content, unused]
    rfl
  have content : after.content = Function.update items.content id (some (entity.type, entity)) :=
    @content_withItem items id ⟨entity.type, 0, entity⟩
  have notHeld : ∀ {slot}, items.content.IsStr slot → slot ≠ id := by
    rintro slot ⟨bytes, is⟩ rfl
    rw [none] at is
    cases is
  have entities : ∀ {entity}, items.content.Typed entity → after.content.Typed entity := by
    intro entity typed
    refine typed.of_eq fun slot member => ?_
    rw [content, Function.update_of_ne (notHeld (typed.slots slot member))]
  have zero : items.refOf id = 0 := by
    rw [refOf, Objects.weightAt, unused]
    rfl
  have notFresh : id ∉ fresh := by
    intro isFresh
    have live := exact'.live id isFresh
    rw [none] at live
    cases live
  have refs : after.refOf = items.refOf := by
    have changed : after.refOf = Function.update items.refOf id 0 :=
      @refOf_withItem items id ⟨entity.type, 0, entity⟩
    rw [changed, ← zero, Function.update_eq_self]
  refine ⟨⟨?_, ?_, ?_, ?_, ?_, nodup⟩, content⟩
  · intro other
    have was := exact'.refs other
    have more : after.inner other = items.inner other + entity.slots.count other :=
      @inner_newItem items id ⟨entity.type, 0, entity⟩ unused other
    rw [refs, was, more]
    unfold plus
    omega
  · intro other live
    rw [refs]
    by_cases same : other = id
    · rw [same]
      exact iff_of_true zero (Set.mem_insert ..)
    · rw [content, Function.update_of_ne same] at live
      rw [exact'.zero other live]
      exact (Set.mem_insert_iff.trans (or_iff_right same)).symm
  · intro other isFresh
    rw [content]
    by_cases same : other = id
    · rw [same, Function.update_self]
      rfl
    · rw [Function.update_of_ne same]
      exact exact'.live other ((Set.mem_insert_iff.mp isFresh).resolve_left same)
  · intro other type held is
    rw [content] at is
    by_cases same : other = id
    · rw [same, Function.update_self] at is
      cases is
      exact ⟨rfl, entities typed⟩
    · rw [Function.update_of_ne same] at is
      exact ⟨(exact'.typed other type held is).1, entities (exact'.typed other type held is).2⟩
  · intro other isFree
    rw [content, Function.update_of_ne]
    · exact exact'.free other (free other isFree)
    · rintro rfl
      exact apart isFree

theorem fkItemCreate_exact {entity : Entity} (exact' : items.Exact (plus claims entity.slots) fresh)
    (typed : items.content.Typed entity) :
    ∃ id after, fkItemCreate entity.type entity items = .ok id after ∧ items.content id = none ∧
      after.Exact claims (insert id fresh) ∧
        after.content = Function.update items.content id (some (entity.type, entity)) := by
  unfold fkItemCreate
  cases free : items.free with
  | cons id rest =>
      have none := exact'.free id (by rw [free]; exact List.mem_cons_self ..)
      have unused : items.used.find id = .none := Option.map_eq_none_iff.mp none
      have nodup := exact'.nodup
      rw [free] at nodup
      exact ⟨id, _, rfl, none, newItem_exact exact' typed unused (fun other member => by
        rw [free]
        exact List.mem_cons_of_mem _ member) nodup.of_cons (List.nodup_cons.mp nodup).1⟩
  | nil =>
      obtain ⟨unused, apart⟩ := newAddress_unused items
      have none : items.content items.newAddress = .none := by
        rw [content, unused]
        rfl
      rw [free] at apart
      exact ⟨items.newAddress, _, rfl, none,
        newItem_exact exact' typed unused nofun List.nodup_nil apart⟩

/-! ## Giving up a reference -/

theorem released_eq {type : FkItemType} {entity : Entity} (same : type = entity.type) (ref : Nat) :
    released ⟨type, ref, entity⟩ = some entity.slots := by
  rw [same]
  cases entity <;> rfl

theorem emptied_type (entity : Entity) : entity.emptied.type = entity.type := by
  cases entity <;> rfl

theorem emptied_slots (entity : Entity) : entity.emptied.slots = [] := by
  cases entity <;> rfl

theorem emptied_strs {content : Content} {type : FkItemType} {entity : Entity}
    (there : content id = some (type, entity)) (slot : Nat) (is : content.IsStr slot) :
    Function.update content id (some (type, entity.emptied)) slot = content slot := by
  cases entity with
  | str bytes =>
      change Function.update content id (some (type, .str bytes)) slot = _
      rw [← there, Function.update_eq_self]
  | list nodes => exact update_notStr there nofun slot is
  | dict fields => exact update_notStr there nofun slot is
  | sklist => exact update_notStr there nofun slot is
  | num number => exact update_notStr there nofun slot is

theorem emptied_typed (content : Content) (entity : Entity) : content.Typed entity.emptied := by
  refine ⟨fun slot member => ?_, fun fields is => ?_⟩
  · rw [emptied_slots] at member
    cases member
  · cases entity with
    | dict old =>
        cases is
        exact fkDictInit_wf
    | _ => cases is

theorem Shrinks.of_eq {after : FkItems} (same : after.content = items.content) :
    Shrinks items after :=
  fun _ _ is => same ▸ is

theorem Shrinks.trans {first second third : FkItems} (one : Shrinks first second)
    (two : Shrinks second third) :
    Shrinks first third := fun id found is => one id found (two id found is)

/-- What is still claimed is as it was. -/
theorem Shrinks.claimed {after : FkItems} (shrinks : Shrinks items after)
    (exact' : after.Exact claims fresh) (claimed : 0 < claims id) :
    after.content id = items.content id := by
  obtain ⟨item, found, _⟩ := exact'.find_of_claim claimed
  rw [content_eq found]
  exact (shrinks id _ (content_eq found)).symm

/-- The slots of an item that is destroyed are released one after the other. -/
theorem forEach_decRef {body : Nat → Act FkItems Unit} {slots : List Nat}
    (each : ∀ {items : FkItems} {claims : Nat → Nat} {fresh : Set Nat} {slot : Nat},
      items.Exact (plus claims [slot]) fresh → items.content.IsStr slot →
      ∃ after, body slot items = .ok () after ∧ after.Exact claims fresh ∧ Shrinks items after)
    (exact' : items.Exact (plus claims slots) fresh)
    (strs : ∀ slot ∈ slots, items.content.IsStr slot) :
    ∃ after, Act.forEach body slots items = .ok () after ∧ after.Exact claims fresh ∧
      Shrinks items after := by
  induction slots generalizing items with
  | nil => exact ⟨items, rfl, exact', .of_eq rfl⟩
  | cons slot rest ih =>
      have split : plus claims (slot :: rest) = plus (plus claims rest) [slot] := by
        rw [← plus_append]
        exact plus_perm claims (List.perm_append_singleton slot rest).symm
      rw [split] at exact'
      obtain ⟨middle, called, between, shrinks⟩ := each exact' (strs slot (List.mem_cons_self ..))
      have still : ∀ other ∈ rest, middle.content.IsStr other := by
        intro other member
        refine (strs other (List.mem_cons_of_mem _ member)).of_eq (shrinks.claimed between ?_)
        exact Nat.lt_of_lt_of_le (List.count_pos_iff.mpr member) (Nat.le_add_left _ _)
      obtain ⟨after, more, last, further⟩ := ih between still
      exact ⟨after, (Act.bind_ok called).trans more, last, shrinks.trans further⟩

theorem decRefLoop_exact {fuel : Nat} (exact' : items.Exact (plus claims [id]) fresh)
    (positive : 0 < fuel) (deep : ∀ type entity, items.content id = some (type, entity) →
      entity.slots ≠ [] → 1 < fuel) :
    ∃ after, decRefLoop fuel id items = .ok () after ∧ after.Exact claims fresh ∧
      Shrinks items after := by
  induction fuel generalizing items claims fresh id with
  | zero => exact (Nat.lt_irrefl 0 positive).elim
  | succ fuel ih =>
      obtain ⟨item, counted, found, same, ⟨called, kept⟩ | ⟨called, dying, notFresh⟩⟩ :=
        countDown_exact exact'
      · exact ⟨counted, (Act.bind_ok called).trans rfl, kept, .of_eq same⟩
      · have there : counted.content id = some (item.type, item.entity) := by
          rw [same, content_eq found]
        obtain ⟨sameType, typed⟩ := dying.typed id _ _ there
        have balance : ∀ slot, item.entity.emptied.slots.count slot + item.entity.slots.count slot =
            item.entity.slots.count slot + ([] : List Nat).count slot := by
          intro slot
          rw [emptied_slots]
          exact Nat.add_comm _ _
        rw [← plus_nil claims] at dying
        obtain ⟨emptied, set, claimed, changed⟩ :=
          setEntity_exact dying there (emptied_type item.entity) (emptied_strs there)
            balance (emptied_typed _ _)
        have strs : ∀ slot ∈ item.entity.slots, emptied.content.IsStr slot := by
          intro slot member
          have is := typed.slots slot member
          refine is.of_eq ?_
          rw [changed]
          exact emptied_strs there slot is
        have inner : ∃ cleared, Act.forEach (decRefLoop fuel) item.entity.slots emptied = .ok
            () cleared ∧ cleared.Exact claims (insert id fresh) ∧ Shrinks emptied cleared := by
          by_cases none : item.entity.slots = []
          · rw [none] at claimed ⊢
            exact ⟨emptied, rfl, claimed, .of_eq rfl⟩
          · have more := deep item.type item.entity (content_eq found) none
            refine forEach_decRef (fun {_ _ _ _} exact' is =>
              ih exact' (by omega) fun type entity known held => ?_) claimed strs
            obtain ⟨bytes, isStr⟩ := is
            rw [isStr] at known
            obtain ⟨_, rfl⟩ := Prod.mk.inj (Option.some.inj known)
            exact (held rfl).elim
        obtain ⟨cleared, released, empty, shrinks⟩ := inner
        have still : cleared.content id = some (item.type, item.entity.emptied) := by
          obtain ⟨left, isLeft⟩ := find_of_content (empty.live id (Set.mem_insert ..))
          have was := shrinks id _ (content_eq isLeft)
          rw [content_eq isLeft, ← was, changed, Function.update_self]
        obtain ⟨after, dropped, last, further, gone⟩ :=
          drop_exact empty notFresh still (emptied_slots item.entity)
        refine ⟨after, ?_, last, fun other value is => ?_⟩
        · refine (Act.bind_ok called).trans ?_
          dsimp only
          rw [released_eq sameType]
          exact (Act.bind_ok set).trans ((Act.bind_ok released).trans dropped)
        · have was := shrinks other value (further other value is)
          have apart : other ≠ id := by
            rintro rfl
            rw [gone] at is
            cases is
          rw [changed, Function.update_of_ne apart, same] at was
          exact was

/-- `fk_item_dec_ref`: a reference is given up, and the item is destroyed with the last one. -/
theorem fkItemDecRef_exact (exact' : items.Exact (plus claims [id]) fresh) :
    ∃ after, fkItemDecRef id items = .ok () after ∧ after.Exact claims fresh ∧
      Shrinks items after := by
  have claimed : 0 < plus claims [id] id := by
    rw [plus, List.count_singleton_self]
    exact Nat.succ_pos _
  obtain ⟨item, found, _⟩ := exact'.find_of_claim claimed
  have live : id ∈ items.used.live := (items.used.live_iff id).mpr (by rw [found]; rfl)
  have some : 0 < items.used.live.card := Finset.card_pos.mpr ⟨id, live⟩
  exact decRefLoop_exact exact' (Nat.succ_pos _) fun _ _ _ _ => Nat.succ_lt_succ some

/-- Some references are given up one after the other. -/
theorem fkItemDecRefs_exact {ids : List Nat} (exact' : items.Exact (plus claims ids) fresh) :
    ∃ after, Act.forEach fkItemDecRef ids items = .ok () after ∧ after.Exact claims fresh ∧
      Shrinks items after := by
  induction ids generalizing items with
  | nil => exact ⟨items, rfl, exact', .of_eq rfl⟩
  | cons id rest ih =>
      have split : plus claims (id :: rest) = plus (plus claims rest) [id] := by
        rw [← plus_append]
        exact plus_perm claims (List.perm_append_singleton id rest).symm
      rw [split] at exact'
      obtain ⟨middle, called, between, shrinks⟩ := fkItemDecRef_exact exact'
      obtain ⟨after, more, last, further⟩ := ih between
      exact ⟨after, (Act.bind_ok called).trans more, last, shrinks.trans further⟩

/-- Some references are taken. -/
theorem fkItemIncRefs_exact {ids : List Nat} (exact' : items.Exact claims ∅)
    (live : ∀ id ∈ ids, (items.content id).isSome = true) :
    ∃ after, Act.forEach fkItemIncRef ids items = .ok () after ∧ after.Exact (plus claims ids) ∅ ∧
      after.content = items.content := by
  induction ids generalizing items claims with
  | nil => exact ⟨items, rfl, exact', rfl⟩
  | cons id rest ih =>
      obtain ⟨middle, called, between, same⟩ :=
        fkItemIncRef_exact exact' (live id (List.mem_cons_self ..))
      rw [Set.empty_sdiff] at between
      obtain ⟨after, more, last, further⟩ := ih between fun other member => by
        rw [same]
        exact live other (List.mem_cons_of_mem _ member)
      refine ⟨after, (Act.bind_ok called).trans more, ?_, further.trans same⟩
      rw [← plus_append] at last
      exact last

end FkItems

end Freekick.Refs
