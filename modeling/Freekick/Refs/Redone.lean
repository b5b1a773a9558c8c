import Freekick.Refs.Handlers

/-!
# What the operations on databases leave

A call that succeeds leaves the server with other items and casts, and the dictionary at its
place as `fk_dict.c` leaves it.
-/

namespace Freekick.Refs

open Lib Lib.Call FkItems

variable {svr after : FkSvr} {place : Bool × Nat} {key value id : Nat} {dct : FkDict Nat Nat}

/-! ## Looks -/

theorem raw_left {type : FkItemType} {entity : Entity}
    (called : raw type id svr = .ok entity after) :
    ∃ casts, after = { svr with casts := casts } := by
  unfold raw at called
  split at called
  · cases called
  · cases called
    exact ⟨_, rfl⟩

theorem lookStr_left {result : Unit} (called : lookStr id svr = .ok result after) :
    ∃ casts, after = { svr with casts := casts } := by
  obtain ⟨bytes, middle, looked, rest⟩ := Act.bind_eq_ok called
  cases rest
  obtain ⟨entity, _, taken, rest⟩ := Act.bind_eq_ok looked
  cases entity with
  | str bytes =>
      cases rest
      exact raw_left taken
  | _ => cases rest

theorem lookStrs_left {result : Unit} {ids : List Nat}
    (called : Act.forEach lookStr ids svr = .ok result after) :
    ∃ casts, after = { svr with casts := casts } := by
  induction ids generalizing svr with
  | nil =>
      cases called
      exact ⟨_, rfl⟩
  | cons id rest ih =>
      obtain ⟨_, middle, looked, later⟩ := Act.bind_eq_ok called
      obtain ⟨casts, rfl⟩ := lookStr_left looked
      obtain ⟨more, rfl⟩ := ih later
      exact ⟨more, rfl⟩

theorem readKeys_left {result : Unit} (called : readKeys key dct svr = .ok result after) :
    ∃ casts, after = { svr with casts := casts } :=
  lookStrs_left called

theorem dictAt_left {found : FkDict Nat Nat} (called : dictAt place svr = .ok found after) :
    svr.dicts.find place = some found ∧ svr = after := by
  unfold dictAt at called
  split at called
  · cases called
  · next dct there =>
      cases called
      exact ⟨there, rfl⟩

theorem onItems_left {A : Type} {act : Act FkItems A} {result : A}
    (called : onItems act svr = .ok result after) :
    ∃ items, act svr.items = .ok result items ∧ after = { svr with items := items } := by
  unfold onItems at called
  cases done : act svr.items with
  | ok other items =>
      rw [done] at called
      cases called
      exact ⟨items, rfl, rfl⟩
  | err items =>
      rw [done] at called
      cases called
  | fault =>
      rw [done] at called
      cases called

/-! ## Databases -/

/-- The server with another dictionary at the place, and maybe other items. -/
structure Redone (svr after : FkSvr) (place : Bool × Nat) (new : FkDict Nat Nat) : Prop where
  frame : after =
    { svr with items := after.items, casts := after.casts, dicts := svr.dicts.put place new }

theorem dictAdd_left {added : FkDictRt × FkDict Nat Nat}
    (called : dictAdd dct key value svr = .ok added after) :
    added = fkDictAdd svr.items.content.eop dct key value ∧
      after = { svr with items := after.items, casts := after.casts } ∧
      (added.1 = .err → after.items = svr.items) := by
  obtain ⟨_, middle, read, rest⟩ := Act.bind_eq_ok called
  obtain ⟨casts, rfl⟩ := readKeys_left read
  rw [Act.read_bind] at rest
  dsimp only at rest
  cases code : (fkDictAdd svr.items.content.eop dct key value).1 with
  | err =>
      rw [code] at rest
      cases rest
      exact ⟨rfl, rfl, fun _ => rfl⟩
  | ok =>
      rw [code] at rest
      obtain ⟨_, _, first, rest⟩ := Act.bind_eq_ok rest
      obtain ⟨_, _, second, rest⟩ := Act.bind_eq_ok rest
      cases rest
      obtain ⟨one, _, rfl⟩ := onItems_left first
      obtain ⟨two, _, rfl⟩ := onItems_left second
      refine ⟨rfl, rfl, fun failed => ?_⟩
      rw [code] at failed
      cases failed

theorem dbAdd_left {rt : FkDictRt} (found : svr.dicts.find place = some dct)
    (called : dbAdd place key value svr = .ok rt after) :
    rt = (fkDictAdd svr.items.content.eop dct key value).1 ∧
      Redone svr after place (fkDictAdd svr.items.content.eop dct key value).2 ∧
        (rt = .err → after.items = svr.items) := by
  obtain ⟨other, middle, there, rest⟩ := Act.bind_eq_ok called
  obtain ⟨same, rfl⟩ := dictAt_left there
  rw [found] at same
  cases same
  obtain ⟨added, _, adds, rest⟩ := Act.bind_eq_ok rest
  obtain ⟨rfl, frame, kept⟩ := dictAdd_left adds
  cases rest
  refine ⟨rfl, ⟨?_⟩, kept⟩
  rw [frame]

theorem dictGet_left {got : Option Nat} (called : dictGet dct key svr = .ok got after) :
    got = fkDictGet svr.items.content.eop dct key ∧
      ∃ casts, after = { svr with casts := casts } := by
  obtain ⟨_, middle, read, rest⟩ := Act.bind_eq_ok called
  obtain ⟨casts, rfl⟩ := readKeys_left read
  cases rest
  exact ⟨rfl, casts, rfl⟩

theorem dbRevalue_left {result : Unit} (found : svr.dicts.find place = some dct)
    (called : dbRevalue place key value svr = .ok result after) :
    Redone svr after place (fkDictPut svr.items.content.eop dct key value) := by
  obtain ⟨other, middle, there, rest⟩ := Act.bind_eq_ok called
  obtain ⟨same, rfl⟩ := dictAt_left there
  rw [found] at same
  cases same
  obtain ⟨got, _, looked, rest⟩ := Act.bind_eq_ok rest
  obtain ⟨_, casts, rfl⟩ := dictGet_left looked
  cases got with
  | none => cases rest
  | some old =>
      obtain ⟨put, _, computed, rest⟩ := Act.bind_eq_ok rest
      cases computed
      obtain ⟨_, _, first, rest⟩ := Act.bind_eq_ok rest
      obtain ⟨_, _, second, rest⟩ := Act.bind_eq_ok rest
      obtain ⟨one, _, rfl⟩ := onItems_left first
      obtain ⟨two, _, rfl⟩ := onItems_left second
      cases rest
      exact ⟨rfl⟩

theorem dbReplace_left {result : Unit} (found : svr.dicts.find place = some dct)
    (called : dbReplace place key value svr = .ok result after) :
    Redone svr after place (fkDictReplace svr.items.content.eop dct key value).2 := by
  obtain ⟨rt, middle, added, rest⟩ := Act.bind_eq_ok called
  obtain ⟨code, ⟨frame⟩, kept⟩ := dbAdd_left found added
  unfold fkDictReplace
  cases adds : fkDictAdd svr.items.content.eop dct key value with
  | mk result wide =>
      rw [adds] at code frame
      cases code
      cases result with
      | ok =>
          cases rest
          exact ⟨frame⟩
      | err =>
          have same : middle.items = svr.items := kept rfl
          have there : middle.dicts.find place = some wide := by
            rw [frame]
            exact Function.update_self ..
          obtain ⟨last⟩ := dbRevalue_left there rest
          rw [same] at last
          refine ⟨last.trans ?_⟩
          rw [frame]
          simp only [Objects.put_put]

/-- A key that is not found is not removed. -/
theorem fkDictRemove_missed {content : Content} (searched : fkDictElt content.eop dct key = none) :
    (fkDictRemove content.eop dct key).2 = dct := by
  unfold fkDictRemove
  unfold fkDictElt at searched
  cases found : fkDictSearch content.eop dct key with
  | mk idx position =>
      cases position with
      | none => rfl
      | some position =>
          obtain ⟨_, front, elt, back, chained, rfl, _⟩ := fkDictSearch_some found
          rw [found] at searched
          dsimp only at searched
          rw [chained] at searched
          simp at searched

theorem dbRemove_left {removed : Bool} (found : svr.dicts.find place = some dct)
    (called : dbRemove place key svr = .ok removed after) :
    removed = (fkDictGet svr.items.content.eop dct key).isSome ∧
      Redone svr after place (fkDictRemove svr.items.content.eop dct key).2 := by
  obtain ⟨other, middle, there, rest⟩ := Act.bind_eq_ok called
  obtain ⟨same, rfl⟩ := dictAt_left there
  rw [found] at same
  cases same
  obtain ⟨_, _, read, rest⟩ := Act.bind_eq_ok rest
  obtain ⟨casts, rfl⟩ := readKeys_left read
  rw [Act.read_bind] at rest
  dsimp only at rest
  rw [fkDictGet_eq_elt]
  cases searched : fkDictElt svr.items.content.eop dct key with
  | none =>
      rw [searched] at rest
      cases rest
      refine ⟨rfl, ⟨?_⟩⟩
      rw [fkDictRemove_missed searched, Objects.put_self svr.dicts place dct found]
  | some elt =>
      rw [searched] at rest
      obtain ⟨_, _, computed, rest⟩ := Act.bind_eq_ok rest
      cases computed
      obtain ⟨_, _, set, rest⟩ := Act.bind_eq_ok rest
      obtain ⟨_, _, first, rest⟩ := Act.bind_eq_ok rest
      obtain ⟨_, _, second, rest⟩ := Act.bind_eq_ok rest
      cases set
      obtain ⟨one, _, rfl⟩ := onItems_left first
      obtain ⟨two, _, rfl⟩ := onItems_left second
      cases rest
      exact ⟨rfl, ⟨rfl⟩⟩

theorem dbEmpty_left {result : Unit} (found : svr.dicts.find place = some dct)
    (called : dbEmpty place svr = .ok result after) :
    Redone svr after place (fkDictEmpty dct) := by
  obtain ⟨other, middle, there, rest⟩ := Act.bind_eq_ok called
  obtain ⟨same, rfl⟩ := dictAt_left there
  rw [found] at same
  cases same
  obtain ⟨_, _, set, rest⟩ := Act.bind_eq_ok rest
  cases set
  obtain ⟨items, _, rfl⟩ := onItems_left rest
  exact ⟨rfl⟩

end Freekick.Refs
