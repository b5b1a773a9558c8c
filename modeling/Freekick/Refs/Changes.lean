import Freekick.Refs.Values

/-!
# Items that are made and changed

New items and counts change nothing that a database stands for.  A list or hash that is changed
in place is the value of one key only, and that key gets the changed value.
-/

namespace Freekick.Refs

open Lib Lib.Call FkItems

variable {svr : FkSvr} {plain : Freekick.FkSvr} {extra extra' : List Nat} {fresh fresh' : Set Nat}
  {place : Bool × Nat} {key id idx : Nat} {dct : FkDict Nat Nat} {items : FkItems}

namespace Mirror

/-- Other items that stand for the same. -/
theorem withItems (mirror : Mirror svr plain extra fresh)
    (ok : Ok False { svr with items := items } extra' fresh')
    (sole : Sole { svr with items := items } extra')
    (same : ∀ place dct, svr.dicts.find place = some dct →
      items.content.dictOf dct = svr.items.content.dictOf dct) :
    Mirror { svr with items := items } plain extra' fresh' := by
  obtain ⟨dbcnt, savePid, clock, readings, junk, dicts⟩ := mirror.alike
  refine ⟨ok, sole, ⟨dbcnt, savePid, clock, readings, junk, fun isexp idx dct found => ?_⟩,
    mirror.alive⟩
  rw [same (isexp, idx) dct found]
  exact dicts isexp idx dct found

theorem perm {other : List Nat} (mirror : Mirror svr plain extra fresh) (perm : extra.Perm other) :
    Mirror svr plain other fresh := by
  refine ⟨mirror.ok.perm perm, fun id owned => ?_, mirror.alike, mirror.alive⟩
  rw [← plus_perm svr.outer perm]
  exact mirror.sole id owned

theorem incRefs {ids : List Nat} (mirror : Mirror svr plain extra ∅)
    (strs : ∀ id ∈ ids, svr.items.content.IsStr id) :
    ∃ items, Act.forEach fkItemIncRef ids svr.items = .ok () items ∧
      Mirror { svr with items := items } plain (ids ++ extra) ∅ ∧
      items.content = svr.items.content := by
  obtain ⟨items, called, ok, same⟩ := incRefs_ok mirror.ok fun id member => (strs id member).live
  refine ⟨items, called, mirror.withItems ok (fun id owned => ?_) (fun _ _ _ => by rw [same]), same⟩
  change items.content.Owned id at owned
  rw [same] at owned
  have once := mirror.sole id owned
  have none : ids.count id = 0 :=
    List.count_eq_zero.mpr fun member => (strs id member).not_owned owned
  unfold plus at once ⊢
  rw [List.count_append, none, Nat.zero_add]
  exact once

/-- References go, and items that nothing refers to any more. -/
theorem shrink (mirror : Mirror svr plain extra fresh)
    (ok : Ok False { svr with items := items } extra' fresh')
    (shrinks : Shrinks svr.items items) (fewer : ∀ id, extra'.count id ≤ extra.count id) :
    Mirror { svr with items := items } plain extra' fresh' := by
  refine mirror.withItems ok (fun id owned => ?_) fun place dct found =>
    @dictOf_of_shrinks svr _ _ _ _ _ ok shrinks found
  have once := mirror.sole id (shrinks.owned owned)
  have least := fewer id
  unfold plus at once ⊢
  exact Nat.le_trans (Nat.add_le_add_left least _) once

theorem decRef (mirror : Mirror svr plain (id :: extra) fresh) :
    ∃ items, fkItemDecRef id svr.items = .ok () items ∧
      Mirror { svr with items := items } plain extra fresh ∧ Shrinks svr.items items := by
  obtain ⟨items, called, ok, shrinks⟩ := decRef_ok mirror.ok
  exact ⟨items, called, mirror.shrink ok shrinks fun other => List.count_le_count_cons, shrinks⟩

end Mirror

/-- What is in use does not depend on an item that was not. -/
theorem itemOf_of_new {items made : FkItems} {claims : Nat → Nat} {fresh : Set Nat}
    {new other : Nat} {item : FkItemType × Entity}
    (exact' : items.Exact claims fresh) (unused : items.content new = none)
    (content : made.content = Function.update items.content new (some item))
    (live : (items.content other).isSome = true) :
    made.content other = items.content other ∧
      made.content.itemOf other = items.content.itemOf other := by
  have kept : ∀ slot, (items.content slot).isSome = true →
      made.content slot = items.content slot := by
    intro slot there
    rw [content]
    refine Function.update_of_ne ?_ ..
    rintro rfl
    rw [unused] at there
    cases there
  obtain ⟨type, entity, there⟩ := content_of_live live
  refine ⟨kept other live, ?_⟩
  rw [Content.itemOf_of_content there, Content.itemOf_of_content ((kept other live).trans there)]
  exact Entity.value_congr fun slot member => Content.strOf_congr
    (kept slot ((exact'.typed other type entity there).2.slots slot member).live)

theorem Mirror.create (entity : Entity) (mirror : Mirror svr plain (entity.slots ++ extra) fresh)
    (typed : svr.items.content.Typed entity) :
    ∃ id items, fkItemCreate entity.type entity svr.items = .ok id items ∧
      svr.items.content id = none ∧
      Mirror { svr with items := items } plain extra (insert id fresh) ∧
      items.content = Function.update svr.items.content id (some (entity.type, entity)) := by
  obtain ⟨id, items, called, unused, ok, content⟩ := create_ok entity mirror.ok typed
  refine ⟨id, items, called, unused,
    mirror.withItems ok (fun other owned => ?_) fun place dct found => ?_, content⟩
  · by_cases same : other = id
    · have none : plus svr.outer extra other = 0 := by
        rw [same]
        exact (ok.exact.unheld (Set.mem_insert id fresh)).2
      exact Nat.le_trans (Nat.le_of_eq none) (Nat.zero_le _)
    · obtain ⟨type, old, there, notStr⟩ := owned
      change items.content other = some (type, old) at there
      rw [content, Function.update_of_ne same] at there
      have once := mirror.sole other ⟨type, old, there, notStr⟩
      unfold plus at once ⊢
      rw [List.count_append] at once
      exact Nat.le_trans (Nat.add_le_add_left (Nat.le_add_left _ _) _) once
  · obtain ⟨_, keys, values⟩ := mirror.ok.dicts place dct found
    refine FkDict.image_congr fun elt member => ⟨Content.strOf_congr ?_, ?_⟩
    · exact (itemOf_of_new mirror.ok.exact unused content (keys elt member).live).1
    · exact (itemOf_of_new mirror.ok.exact unused content (values elt member).live).2

/-! ## An item that changes in place -/

/-- A list or hash is not a string. -/
theorem FkItems.Exact.owned {items : FkItems} {claims : Nat → Nat} {fresh : Set Nat}
    {type : FkItemType} {entity : Entity} (exact' : items.Exact claims fresh)
    (there : items.content id = some (type, entity))
    (kind : entity.type = .list ∨ entity.type = .dict) : items.content.Owned id := by
  refine ⟨type, entity, there, ?_⟩
  rw [(exact'.typed id type entity there).1]
  rcases kind with isList | isDict
  · rw [isList]
    exact nofun
  · rw [isDict]
    exact nofun

theorem setEntity_left {type : FkItemType} {old new : Entity} {result : Unit}
    (there : svr.items.content id = some (type, old))
    (called : setEntity id new svr.items = .ok result items) :
    items.content = Function.update svr.items.content id (some (type, new)) := by
  obtain ⟨item, found⟩ := @find_of_content svr.items id (by rw [there]; rfl)
  have known := content_eq found
  rw [there] at known
  obtain ⟨rfl, rfl⟩ := Prod.mk.inj (Option.some.inj known)
  unfold FkItems.setEntity at called
  rw [found] at called
  cases called
  exact @content_withItem svr.items id { item with entity := new }

/-- Two dictionaries that hold the item hold it twice. -/
theorem outer_two {other : Bool × Nat} {also : FkDict Nat Nat} (apart : other ≠ place)
    (found : svr.dicts.find place = some dct) (there : svr.dicts.find other = some also) :
    (dictSlots dct).count id + (dictSlots also).count id ≤ svr.outer id := by
  have whole := svr.dicts.total_drop place fun dct => (dictSlots dct).count id
  have least := (svr.dicts.drop place).weightAt_le_total other fun dct => (dictSlots dct).count id
  rw [Objects.weightAt, found, Option.elim_some] at whole
  rw [Objects.weightAt, Objects.find_drop, Function.update_of_ne apart, there,
    Option.elim_some] at least
  unfold FkSvr.outer
  omega

theorem count_values_le (elts : List (Nat × Nat)) (id : Nat) :
    (elts.map Prod.snd).count id ≤ (slotsOf elts).count id := by
  induction elts with
  | nil => exact Nat.le_refl _
  | cons elt rest ih =>
      rw [count_slotsOf, List.map_cons, List.count_cons,
        ← List.count_singleton (a := id) (b := elt.2)]
      omega

theorem Mirror.setEntity {type : FkItemType} {old : Entity} (new : Entity) (added gone : List Nat)
    (mirror : Mirror svr plain (added ++ extra) fresh)
    (found : svr.dicts.find (false, idx) = some dct)
    (got : fkDictGet svr.items.content.eop dct key = some id)
    (there : svr.items.content id = some (type, old))
    (same : new.type = old.type) (kind : old.type = .list ∨ old.type = .dict)
    (slots : ∀ slot, new.slots.count slot + gone.count slot = old.slots.count slot +
      added.count slot)
    (typed : svr.items.content.Typed new) (strs : ∀ slot ∈ gone, svr.items.content.IsStr slot) :
    ∃ items, FkItems.setEntity id new svr.items = .ok () items ∧
      Mirror { svr with items := items }
        (plain.setDict false idx (fkDictPut dbDictEop (plain.dict false idx)
          (svr.items.content.strOf key) (new.value svr.items.content))) (gone ++ extra) fresh ∧
      items.content = Function.update svr.items.content id (some (type, new)) := by
  obtain ⟨items, called, ok⟩ := setEntity_ok new added gone mirror.ok there same kind slots typed
  have content := setEntity_left there called
  have owned := mirror.ok.exact.owned there kind
  have str : ∀ slot, svr.items.content.IsStr slot →
      items.content slot = svr.items.content slot := by
    intro slot is
    rw [content]
    refine Function.update_of_ne ?_ ..
    rintro rfl
    exact is.not_owned owned
  -- the item alone stands for something else
  have value : ∀ other, (svr.items.content other).isSome = true →
      items.content.itemOf other = Function.update svr.items.content.itemOf id
        (new.value svr.items.content) other := by
    intro other live
    by_cases here : other = id
    · subst here
      have changed : items.content other = some (type, new) := by rw [content, Function.update_self]
      rw [Function.update_self, Content.itemOf_of_content changed]
      exact Entity.value_congr fun slot member => Content.strOf_congr
        (str slot (typed.slots slot member))
    · obtain ⟨kind, entity, found⟩ := content_of_live live
      have kept : items.content other = some (kind, entity) :=
        by rw [content, Function.update_of_ne here, found]
      rw [Function.update_of_ne here, Content.itemOf_of_content kept,
        Content.itemOf_of_content found]
      exact Entity.value_congr fun slot member =>
        Content.strOf_congr (str slot
          ((mirror.ok.exact.typed other kind entity found).2.slots slot member))
  have image : ∀ place dct, svr.dicts.find place = some dct → items.content.dictOf dct =
      dct.image svr.items.content.strOf
        (Function.update svr.items.content.itemOf id (new.value svr.items.content)) := by
    intro place dct found
    obtain ⟨_, keys, values⟩ := mirror.ok.dicts place dct found
    exact FkDict.image_congr fun elt member =>
      ⟨Content.strOf_congr (str elt.1 (keys elt member)), value elt.2 (values elt member).live⟩
  have once : svr.outer id ≤ 1 := Nat.le_trans (Nat.le_add_right _ _) (mirror.sole id owned)
  obtain ⟨wf, _, _⟩ := mirror.ok.dicts _ dct found
  have here : 0 < (dictSlots dct).count id := by
    obtain ⟨stored, member, _⟩ := (wf.represents svr.items.content.eop_lawful key id).mp got
    exact List.count_pos_iff.mpr (value_mem_slots member)
  refine ⟨items, called, ⟨ok, fun other isOwned => ?_, ?_, mirror.alive⟩, content⟩
  · obtain ⟨kind, entity, found, isNot⟩ := isOwned
    change items.content other = some (kind, entity) at found
    have before : svr.items.content.Owned other := by
      by_cases equal : other = id
      · exact equal ▸ owned
      · rw [content, Function.update_of_ne equal] at found
        exact ⟨kind, entity, found, isNot⟩
    have least := mirror.sole other before
    have none : gone.count other = 0 :=
      List.count_eq_zero.mpr fun member => (strs other member).not_owned before
    unfold plus at least ⊢
    rw [List.count_append] at least ⊢
    change svr.outer other + _ ≤ 1
    omega
  · obtain ⟨dbcnt, savePid, clock, readings, junk, dicts⟩ := mirror.alike
    refine ⟨dbcnt, savePid, clock, readings, junk, fun isexp i other also => ?_⟩
    change svr.dicts.find (isexp, i) = some other at also
    change _ = items.content.dictOf other
    rw [image (isexp, i) other also]
    by_cases equal : (isexp, i) = (false, idx)
    · cases equal
      rw [found] at also
      cases also
      rw [FkSvr.dict_setDict_same, dicts false idx dct found]
      refine (FkDict.image_update svr.items.content.eop_lawful wf svr.items.content.through
        got ?_ _).symm
      have slot : (dictSlots dct).count id ≤ svr.outer id := by
        have least := svr.dicts.weightAt_le_total (false, idx) fun dct => (dictSlots dct).count id
        rw [Objects.weightAt, found] at least
        exact Nat.le_trans least (Nat.le_add_right _ _)
      exact Nat.le_trans (count_values_le _ _) (Nat.le_trans slot once)
    · rw [FkSvr.dict_setDict_other _ _ equal, dicts isexp i other also]
      refine (FkDict.image_congr fun elt member => ⟨rfl, Function.update_of_ne ?_ ..⟩).symm
      intro isId
      have both := @outer_two svr (false, idx) id dct (isexp, i) other equal found also
      have again : 0 < (dictSlots other).count id :=
        List.count_pos_iff.mpr (isId ▸ value_mem_slots member)
      omega

end Freekick.Refs
