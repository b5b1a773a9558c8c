import Freekick.Base.DictImage
import Freekick.Refs.Redone

/-!
# What items stand for

Read through its items, a database holds values.  An item that is not a string has one reference,
and strings do not change; so an operation on items does to what they stand for what the
operation without references does to values.
-/

namespace Freekick.Refs

open Lib Lib.Call FkItems

def Entity.value (content : Content) : Entity → Freekick.FkItem
  | .str bytes => .str bytes
  | .list nodes => .list (nodes.map content.strOf)
  | .dict fields => .dict (fields.image content.strOf content.strOf)
  | .sklist => .sklist
  | .num number => .num number

namespace Content

variable (content : Content)

/-- What the item stands for. -/
def itemOf (id : Nat) : Freekick.FkItem :=
  (content id).elim .sklist fun both => both.2.value content

/-- The dictionary with what its keys and values stand for. -/
def dictOf (dct : FkDict Nat Nat) : FkDb := dct.image content.strOf content.itemOf

/-- The item is in use and not a string. -/
def Owned (id : Nat) : Prop := ∃ type entity, content id = some (type, entity) ∧ type ≠ .str

theorem through : content.eop.Through content.strOf dbDictEop where
  hash := fun _ => rfl
  cmp := fun _ _ => rfl

section Calls

variable (dct : FkDict Nat Nat) (key value : Nat)

theorem get_dictOf : fkDictGet dbDictEop (content.dictOf dct) (content.strOf key) =
    (fkDictGet content.eop dct key).map content.itemOf :=
  fkDictGet_image content.through dct key

theorem add_dictOf : fkDictAdd dbDictEop (content.dictOf dct) (content.strOf key)
    (content.itemOf value) = ((fkDictAdd content.eop dct key value).1,
      content.dictOf (fkDictAdd content.eop dct key value).2) :=
  fkDictAdd_image content.through dct key value

theorem replace_dictOf : (fkDictReplace dbDictEop (content.dictOf dct) (content.strOf key)
    (content.itemOf value)).2 = content.dictOf (fkDictReplace content.eop dct key value).2 :=
  fkDictReplace_image content.through dct key value

theorem remove_dictOf : fkDictRemove dbDictEop (content.dictOf dct) (content.strOf key) =
    ((fkDictRemove content.eop dct key).1, content.dictOf (fkDictRemove content.eop dct key).2) :=
  fkDictRemove_image content.through dct key

end Calls

variable {content} {before after : Content} {id : Nat} {dct : FkDict Nat Nat} {entity : Entity}

theorem itemOf_of_content {type : FkItemType} (there : content id = some (type, entity)) :
    content.itemOf id = entity.value content := by
  rw [itemOf, there]
  rfl

theorem IsStr.itemOf (is : content.IsStr id) : content.itemOf id = .str (content.strOf id) := by
  rw [itemOf_of_content is.strOf]
  rfl

theorem IsStr.not_owned (is : content.IsStr id) : ¬ content.Owned id := by
  rintro ⟨type, entity, there, notStr⟩
  obtain ⟨bytes, found⟩ := is
  rw [found] at there
  cases there
  exact notStr rfl

theorem strOf_congr (same : after id = before id) : after.strOf id = before.strOf id := by
  rw [strOf, strOf, same]

end Content

theorem value_mem_slots {fields : FkDict Nat Nat} {elt : Nat × Nat}
    (member : elt ∈ fields.elements) : elt.2 ∈ dictSlots fields :=
  List.mem_flatMap.mpr ⟨elt, member, List.mem_cons_of_mem _ (List.mem_cons_self ..)⟩

theorem Entity.value_congr {before after : Content} {entity : Entity}
    (same : ∀ slot ∈ entity.slots, after.strOf slot = before.strOf slot) :
    entity.value after = entity.value before := by
  cases entity with
  | list nodes => exact congrArg Freekick.FkItem.list (List.map_congr_left same)
  | dict fields =>
      refine congrArg Freekick.FkItem.dict (FkDict.image_congr fun elt member => ?_)
      exact ⟨same elt.1 (key_mem_slots member), same elt.2 (value_mem_slots member)⟩
  | _ => rfl

/-- Items that are still in use stand for what they stood for. -/
theorem itemOf_of_shrinks {items after : FkItems} {claims : Nat → Nat} {fresh : Set Nat} {id : Nat}
    (exact' : after.Exact claims fresh) (shrinks : Shrinks items after)
    (live : (after.content id).isSome = true) :
    after.content.itemOf id = items.content.itemOf id := by
  obtain ⟨type, entity, there⟩ := content_of_live live
  rw [Content.itemOf_of_content there, Content.itemOf_of_content (shrinks id _ there)]
  refine Entity.value_congr fun slot member => Content.strOf_congr ?_
  exact Shrinks.of_live shrinks ((exact'.typed id type entity there).2.slots slot member).live

/-! ## Servers that are alike -/

/-- The server with values is what the server with items stands for. -/
structure Alike (svr : FkSvr) (plain : Freekick.FkSvr) : Prop where
  dbcnt : plain.dbcnt = svr.dbcnt
  savePid : plain.savePid = svr.savePid
  clock : plain.clock = svr.clock
  readings : plain.readings = svr.readings
  junk : plain.junk = svr.junk
  dicts : ∀ isexp idx dct, svr.dicts.find (isexp, idx) = some dct →
    plain.dict isexp idx = svr.items.content.dictOf dct

/-- An item that is not a string has one reference at most. -/
def Sole (svr : FkSvr) (extra : List Nat) : Prop :=
  ∀ id, svr.items.content.Owned id → plus svr.outer extra id ≤ 1

structure Mirror (svr : FkSvr) (plain : Freekick.FkSvr) (extra : List Nat)
    (fresh : Set Nat) : Prop where
  ok : Ok False svr extra fresh
  sole : Sole svr extra
  alike : Alike svr plain
  alive : svr.crashed = false

variable {svr after : FkSvr} {plain : Freekick.FkSvr} {extra extra' : List Nat}
  {fresh fresh' : Set Nat} {place : Bool × Nat} {key value id idx : Nat} {isexp : Bool}
  {dct new : FkDict Nat Nat}

theorem FkItems.Shrinks.owned {items after : FkItems} (shrinks : Shrinks items after)
    (owned : after.content.Owned id) :
    items.content.Owned id := by
  obtain ⟨type, entity, there, notStr⟩ := owned
  exact ⟨type, entity, shrinks id _ there, notStr⟩

/-- A dictionary that is still there stands for what it stood for. -/
theorem dictOf_of_shrinks (ok : Ok False after extra fresh)
    (shrinks : Shrinks svr.items after.items) (found : after.dicts.find place = some dct) :
    after.items.content.dictOf dct = svr.items.content.dictOf dct := by
  obtain ⟨_, keys, values⟩ := ok.dicts place dct found
  refine FkDict.image_congr fun elt member => ⟨Content.strOf_congr ?_, ?_⟩
  · exact Shrinks.of_live shrinks (keys elt member).live
  · exact itemOf_of_shrinks ok.exact shrinks (values elt member).live

namespace Mirror

/-- After an operation on the dictionary at a place. -/
theorem redone (mirror : Mirror svr plain extra fresh) (found : svr.dicts.find place = some dct)
    (redone : Redone svr after place new) (shrinks : Shrinks svr.items after.items)
    (ok : Ok False after extra fresh')
    (slots : ∀ id, svr.items.content.Owned id →
      (dictSlots new).count id + plus svr.outer extra id ≤ (dictSlots dct).count id + 1) :
    Mirror after (plain.setDict place.1 place.2 (svr.items.content.dictOf new)) extra fresh' where
  ok := ok
  sole := by
    intro id owned
    have room := slots id (shrinks.owned owned)
    have outer : after.outer id = (svr.dicts.put place new).total
        (fun dct => (dictSlots dct).count id) + svr.conns.total fun conn => conn.args.count id := by
      rw [redone.frame]
      rfl
    have whole := svr.dicts.total_put place new fun dct => (dictSlots dct).count id
    rw [Objects.weightAt, found, Option.elim_some] at whole
    unfold plus FkSvr.outer at room
    unfold plus
    rw [outer]
    omega
  alike := by
    obtain ⟨dbcnt, savePid, clock, readings, junk, dicts⟩ := mirror.alike
    refine ⟨?_, ?_, ?_, ?_, ?_, fun isexp idx other there => ?_⟩
    · rw [FkSvr.setDict_dbcnt, redone.frame]
      exact dbcnt
    · rw [redone.frame]
      cases place.1 <;> exact savePid
    · rw [redone.frame]
      cases place.1 <;> exact clock
    · rw [redone.frame]
      cases place.1 <;> exact readings
    · rw [redone.frame]
      cases place.1 <;> exact junk
    · rw [dictOf_of_shrinks ok shrinks there]
      rw [redone.frame] at there
      change Function.update svr.dicts.find place (some new) (isexp, idx) = some other at there
      by_cases here : (isexp, idx) = place
      · subst here
        rw [Function.update_self] at there
        cases there
        exact FkSvr.dict_setDict_same ..
      · rw [Function.update_of_ne here] at there
        rw [FkSvr.dict_setDict_other _ _ here]
        exact dicts isexp idx other there
  alive := by
    rw [redone.frame]
    exact mirror.alive

end Mirror

/-! ## Slots that an operation fills -/

theorem count_slotsOf (elt : Nat × Nat) (elts : List (Nat × Nat)) (id : Nat) :
    (slotsOf (elt :: elts)).count id = [elt.1].count id + [elt.2].count id +
      (slotsOf elts).count id := by
  rw [← List.count_append, ← List.count_append]
  rfl

theorem count_dictSlots {elts : List (Nat × Nat)} (perm : dct.elements.Perm elts) (id : Nat) :
    (dictSlots dct).count id = (slotsOf elts).count id := (dictSlots_perm perm).count_eq id

section Slots

variable {content : Content}

theorem dictSlots_add (wf : dct.Wf content.eop) (apart : id ≠ key) :
    (dictSlots (fkDictAdd content.eop dct key value).2).count id ≤ (dictSlots dct).count id +
      [value].count id := by
  by_cases absent : fkDictGet content.eop dct key = none
  · obtain ⟨_, _, perm⟩ := fkDictAdd_absent content.eop_lawful wf absent value
    have none : [key].count id = 0 :=
      List.count_eq_zero.mpr fun member => apart (List.mem_singleton.mp member)
    have known := count_dictSlots (List.Perm.refl dct.elements) id
    rw [count_dictSlots perm, count_slotsOf, known]
    dsimp only
    omega
  · obtain ⟨_, _, perm⟩ := fkDictAdd_present content.eop_lawful wf absent value
    have known := count_dictSlots (List.Perm.refl dct.elements) id
    rw [count_dictSlots perm, known]
    exact Nat.le_add_right _ _

theorem dictSlots_put (wf : dct.Wf content.eop) (present : fkDictGet content.eop dct key ≠ none) :
    (dictSlots (fkDictPut content.eop dct key value)).count id ≤ (dictSlots dct).count id +
      [value].count id := by
  obtain ⟨elt, searched, _⟩ := fkDictElt_of_get present
  obtain ⟨rest, perm, _, _, put⟩ := fkDictElt_some wf searched
  rw [count_dictSlots perm, count_dictSlots (put value), count_slotsOf, count_slotsOf]
  dsimp only
  omega

theorem dictSlots_replace (wf : dct.Wf content.eop) (apart : id ≠ key) :
    (dictSlots (fkDictReplace content.eop dct key value).2).count id ≤ (dictSlots dct).count id +
      [value].count id := by
  have added := @dictSlots_add key value id dct content wf apart
  unfold fkDictReplace
  by_cases absent : fkDictGet content.eop dct key = none
  · obtain ⟨code, _, _⟩ := fkDictAdd_absent content.eop_lawful wf absent value
    cases adds : fkDictAdd content.eop dct key value with
    | mk rt after =>
        rw [adds] at code added
        cases code
        exact added
  · obtain ⟨code, keptWf, perm⟩ := fkDictAdd_present content.eop_lawful wf absent value
    cases adds : fkDictAdd content.eop dct key value with
    | mk rt after =>
        rw [adds] at code keptWf perm
        cases code
        have present : fkDictGet content.eop after key ≠ none := by
          rwa [fkDictGet_perm content.eop_lawful keptWf wf perm]
        have least := @dictSlots_put key value id after content keptWf present
        rw [count_dictSlots perm] at least
        exact least

theorem dictSlots_remove (wf : dct.Wf content.eop) :
    (dictSlots (fkDictRemove content.eop dct key).2).count id ≤ (dictSlots dct).count id := by
  cases searched : fkDictElt content.eop dct key with
  | none =>
      rw [fkDictRemove_missed searched]
  | some elt =>
      obtain ⟨rest, perm, _, removed, _⟩ := fkDictElt_some wf searched
      rw [count_dictSlots perm, count_dictSlots removed, count_slotsOf]
      exact Nat.le_add_left _ _

end Slots

/-! ## Operations on databases -/

namespace Mirror

/-- An item that a request or nobody holds yet is in no slot unless it is a string. -/
theorem unclaimed (mirror : Mirror svr plain extra fresh) (held : Held svr fresh value)
    (owned : svr.items.content.Owned value) :
    plus svr.outer extra value = 0 := by
  rcases held with isFresh | ⟨client, conn, found, member⟩
  · exact (mirror.ok.exact.unheld isFresh).2
  · exact ((mirror.ok.args client conn found value member).not_owned owned).elim

/-- A key and at most one more item come into the dictionary. -/
theorem room (mirror : Mirror svr plain extra fresh) (is : svr.items.content.IsStr key)
    (held : Held svr fresh value)
    (slots : ∀ id, id ≠ key →
      (dictSlots new).count id ≤ (dictSlots dct).count id + [value].count id) (id : Nat)
    (owned : svr.items.content.Owned id) :
    (dictSlots new).count id + plus svr.outer extra id ≤ (dictSlots dct).count id + 1 := by
  have apart : id ≠ key := by
    rintro rfl
    exact is.not_owned owned
  have filled := slots id apart
  have once := mirror.sole id owned
  by_cases same : value = id
  · subst same
    have none := mirror.unclaimed held owned
    rw [List.count_singleton_self] at filled
    omega
  · have none : [value].count id = 0 :=
      List.count_eq_zero.mpr fun member => same (List.mem_singleton.mp member).symm
    omega

theorem replace (mirror : Mirror svr plain extra fresh)
    (found : svr.dicts.find (isexp, idx) = some dct)
    (is : svr.items.content.IsStr key) (belongs : svr.items.content.Belongs isexp value)
    (held : Held svr fresh value) (notFresh : key ∉ fresh) :
    ∃ after, dbReplace (isexp, idx) key value svr = .ok () after ∧ Rest svr after ∧
      Mirror after (plain.setDict isexp idx
        (fkDictReplace dbDictEop (plain.dict isexp idx) (svr.items.content.strOf key)
          (svr.items.content.itemOf value)).2) extra (fresh \ {value}) := by
  obtain ⟨wf, _, _⟩ := mirror.ok.dicts _ dct found
  obtain ⟨after, called, rest, ok⟩ := dbReplace_ok mirror.ok found is belongs held notFresh
  have kept := mirror.redone found (dbReplace_left found called) rest.items ok
    (mirror.room is held fun _ apart => dictSlots_replace wf apart)
  rw [mirror.alike.dicts isexp idx dct found, Content.replace_dictOf]
  exact ⟨after, called, rest, kept⟩

/-- A key that is new. -/
theorem add (mirror : Mirror svr plain extra fresh) (found : svr.dicts.find (isexp, idx) = some dct)
    (is : svr.items.content.IsStr key) (belongs : svr.items.content.Belongs isexp value)
    (held : Held svr fresh value) (absent : fkDictGet svr.items.content.eop dct key = none) :
    ∃ after, dbAdd (isexp, idx) key value svr = .ok .ok after ∧ Rest svr after ∧
      Mirror after (plain.setDict isexp idx
        (fkDictAdd dbDictEop (plain.dict isexp idx) (svr.items.content.strOf key)
          (svr.items.content.itemOf value)).2) extra ((fresh \ {key}) \ {value}) := by
  obtain ⟨wf, _, _⟩ := mirror.ok.dicts _ dct found
  obtain ⟨after, called, rest, ok⟩ := dbAdd_absent mirror.ok found is belongs absent
  have kept := mirror.redone found (dbAdd_left found called).2.1 rest.items ok
    (mirror.room is held fun _ apart => dictSlots_add wf apart)
  rw [mirror.alike.dicts isexp idx dct found, Content.add_dictOf]
  exact ⟨after, called, rest, kept⟩

theorem remove (mirror : Mirror svr plain extra fresh)
    (found : svr.dicts.find (isexp, idx) = some dct) (is : svr.items.content.IsStr key) :
    ∃ after, dbRemove (isexp, idx) key svr =
        .ok (fkDictGet dbDictEop (plain.dict isexp idx) (svr.items.content.strOf key)).isSome
          after ∧ Rest svr after ∧
      Mirror after (plain.setDict isexp idx (fkDictRemove dbDictEop (plain.dict isexp idx)
        (svr.items.content.strOf key)).2) extra fresh ∧
      ∀ other, other ≠ (isexp, idx) → after.dicts.find other = svr.dicts.find other := by
  obtain ⟨wf, _, _⟩ := mirror.ok.dicts _ dct found
  obtain ⟨removed, after, called, rest, ok, others⟩ := dbRemove_ok mirror.ok found is
  obtain ⟨rfl, redone⟩ := dbRemove_left found called
  have kept := mirror.redone found redone rest.items ok fun id owned => by
    have fewer := @dictSlots_remove key id dct _ wf
    have once := mirror.sole id owned
    omega
  rw [mirror.alike.dicts isexp idx dct found, Content.remove_dictOf, Content.get_dictOf,
    Option.isSome_map]
  exact ⟨after, called, rest, kept, others⟩

theorem empty (mirror : Mirror svr plain extra fresh)
    (found : svr.dicts.find (isexp, idx) = some dct) :
    ∃ after, dbEmpty (isexp, idx) svr = .ok () after ∧ Rest svr after ∧
      Mirror after (plain.setDict isexp idx (fkDictEmpty (plain.dict isexp idx))) extra fresh ∧
      ∀ other, other ≠ (isexp, idx) → after.dicts.find other = svr.dicts.find other := by
  obtain ⟨after, called, rest, ok, others⟩ := dbEmpty_ok mirror.ok found
  have kept := mirror.redone found (dbEmpty_left found called) rest.items ok fun id owned => by
    have none : (dictSlots (fkDictEmpty dct)).count id = 0 := by
      rw [dictSlots, show (fkDictEmpty dct).elements = [] from fkDictInit_elements]
      rfl
    have once := mirror.sole id owned
    omega
  have nothing : svr.items.content.dictOf (fkDictEmpty dct) = fkDictEmpty (plain.dict isexp idx) :=
    fkDictInit_image
  rw [nothing] at kept
  exact ⟨after, called, rest, kept, others⟩

end Mirror

end Freekick.Refs
