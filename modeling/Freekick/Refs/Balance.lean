import Freekick.Refs.Cmd
import Freekick.Refs.Exact

/-!
# The server in balance

What holds of the whole server when some references are taken that are not in a slot yet, or
not any more: the counts are exact with these references, and every slot holds an item of the
type that belongs there.  Each operation on items, dictionaries and connections keeps this and
moves references.
-/

namespace Freekick.Refs

open Lib Lib.Call FkItems

/-- A value of a database. -/
def Content.IsValue (content : Content) (id : Nat) : Prop :=
  ∃ type entity, content id = some (type, entity) ∧
    (type = .str ∨ type = .list ∨ type = .dict ∨ type = .sklist)

/-- A deadline. -/
def Content.IsNum (content : Content) (id : Nat) : Prop :=
  ∃ number, content id = some (.num, .num number)

/-- What belongs into the values of a dictionary of that kind. -/
def Content.Belongs (content : Content) (isexp : Bool) (id : Nat) : Prop :=
  if isexp then content.IsNum id else content.IsValue id

/-- The request is not `EVAL`. -/
def Content.NotEval (content : Content) (args : List Nat) : Prop :=
  ∀ first ∈ args.head?, fkStr2upper (content.strOf first) ≠ ascii "EVAL"

structure DictOk (content : Content) (isexp : Bool) (dct : FkDict Nat Nat) : Prop where
  wf : dct.Wf content.eop
  keys : ∀ elt ∈ dct.elements, content.IsStr elt.1
  values : ∀ elt ∈ dct.elements, content.Belongs isexp elt.2

namespace FkSvr

/-- How many slots of dictionaries and connections hold the item. -/
def outer (svr : FkSvr) (id : Nat) : Nat :=
  svr.dicts.total (fun dct => (dictSlots dct).count id) + svr.conns.total fun conn =>
    conn.args.count id

/-- How many slots hold the item. -/
def slots (svr : FkSvr) (id : Nat) : Nat := svr.items.inner id + svr.outer id

end FkSvr

/-- The server with references that are in no slot, and items that have none.  `right` asks that
all casts were right. -/
structure Ok (right : Prop) (svr : FkSvr) (extra : List Nat) (fresh : Set Nat) : Prop where
  exact : svr.items.Exact (plus svr.outer extra) fresh
  dicts : ∀ place dct, svr.dicts.find place = some dct → DictOk svr.items.content place.1 dct
  there : ∀ isexp idx, idx < svr.dbcnt → ∃ dct, svr.dicts.find (isexp, idx) = some dct
  positive : 0 < svr.dbcnt
  args : ∀ client conn, svr.conns.find client = some conn →
    ∀ arg ∈ conn.args, svr.items.content.IsStr arg
  names : ∀ client conn, svr.conns.find client = some conn → svr.items.content.NotEval conn.args
  dbIdx : ∀ client conn, svr.conns.find client = some conn → conn.out.dbIdx < svr.dbcnt
  casts : right → ∀ cast ∈ svr.casts, cast.1 = cast.2

/-! ## Contents that change -/

namespace Content

variable {before after : Content} {id : Nat} {isexp : Bool} {dct : FkDict Nat Nat}

/-- The item keeps its type, and its entity when that is a string or a number. -/
def Stays (before after : Content) (id : Nat) : Prop :=
  ∀ type entity, before id = some (type, entity) →
    ∃ changed, after id = some (type, changed) ∧ (type = .str ∨ type = .num → changed = entity)

theorem Stays.of_eq (same : after id = before id) : Stays before after id :=
  fun _ entity there => ⟨entity, same.trans there, fun _ => rfl⟩

theorem Stays.isStr (stays : Stays before after id) (is : before.IsStr id) : after.IsStr id := by
  obtain ⟨bytes, there⟩ := is
  obtain ⟨changed, found, same⟩ := stays _ _ there
  rw [same (.inl rfl)] at found
  exact ⟨bytes, found⟩

theorem Stays.strOf (stays : Stays before after id) (is : before.IsStr id) :
    after.strOf id = before.strOf id := by
  obtain ⟨bytes, there⟩ := is
  obtain ⟨changed, found, same⟩ := stays _ _ there
  rw [same (.inl rfl)] at found
  rw [Content.strOf, Content.strOf, found, there]

theorem Stays.belongs (stays : Stays before after id) (belongs : before.Belongs isexp id) :
    after.Belongs isexp id := by
  cases isexp with
  | true =>
      obtain ⟨number, there⟩ := belongs
      obtain ⟨changed, found, same⟩ := stays _ _ there
      rw [same (.inr rfl)] at found
      exact ⟨number, found⟩
  | false =>
      obtain ⟨type, entity, there, kind⟩ := belongs
      obtain ⟨changed, found, _⟩ := stays _ _ there
      exact ⟨type, changed, found, kind⟩

theorem Stays.dictOk (stays : ∀ slot ∈ dictSlots dct, Stays before after slot)
    (ok : DictOk before isexp dct) :
    DictOk after isexp dct := by
  have key : ∀ elt ∈ dct.elements, Stays before after elt.1 := fun elt member =>
    stays elt.1 (key_mem_slots member)
  have value : ∀ elt ∈ dct.elements, Stays before after elt.2 := fun elt member =>
    stays elt.2 (List.mem_flatMap.mpr ⟨elt, member, List.mem_cons_of_mem _ (List.mem_cons_self ..)⟩)
  exact ⟨wf_withKeys ok.wf fun elt member => (key elt member).strOf (ok.keys elt member),
    fun elt member => (key elt member).isStr (ok.keys elt member),
    fun elt member => (value elt member).belongs (ok.values elt member)⟩

theorem IsStr.isValue (is : before.IsStr id) : before.Belongs false id := by
  obtain ⟨bytes, there⟩ := is
  exact ⟨_, _, there, .inl rfl⟩

theorem IsStr.live (is : before.IsStr id) : (before id).isSome = true := by
  obtain ⟨bytes, there⟩ := is
  rw [there]
  rfl

theorem Belongs.live (belongs : before.Belongs isexp id) : (before id).isSome = true := by
  cases isexp with
  | true =>
      obtain ⟨number, there⟩ := belongs
      rw [there]
      rfl
  | false =>
      obtain ⟨type, entity, there, _⟩ := belongs
      rw [there]
      rfl

end Content

namespace Ok

variable {right : Prop} {svr : FkSvr} {extra : List Nat} {fresh : Set Nat} {id client : Nat}
  {place : Bool × Nat} {dct : FkDict Nat Nat} {conn : FkConn}

/-! ## Slots -/

/-- A slot of a dictionary. -/
theorem outer_dict (found : svr.dicts.find place = some dct) (member : id ∈ dictSlots dct) :
    0 < svr.outer id := by
  have least := svr.dicts.weightAt_le_total place fun dct => (dictSlots dct).count id
  rw [Objects.weightAt, found] at least
  have positive : 0 < (dictSlots dct).count id := List.count_pos_iff.mpr member
  exact Nat.lt_of_lt_of_le positive (Nat.le_trans least (Nat.le_add_right _ _))

/-- An argument of a connection. -/
theorem outer_arg (found : svr.conns.find client = some conn) (member : id ∈ conn.args) :
    0 < svr.outer id := by
  have least := svr.conns.weightAt_le_total client fun conn => conn.args.count id
  rw [Objects.weightAt, found] at least
  have positive : 0 < conn.args.count id := List.count_pos_iff.mpr member
  exact Nat.lt_of_lt_of_le positive (Nat.le_trans least (Nat.le_add_left _ _))

/-- An item in a slot is not fresh. -/
theorem not_fresh (ok : Ok right svr extra fresh) (held : 0 < svr.outer id) : id ∉ fresh := by
  intro isFresh
  have unclaimed := (ok.exact.unheld isFresh).2
  unfold plus at unclaimed
  omega

/-- Items change, and the ones in slots outside stay. -/
theorem withItems {items : FkItems} {extra' : List Nat} {fresh' : Set Nat}
    (ok : Ok right svr extra fresh) (exact : items.Exact (plus svr.outer extra') fresh')
    (stays : ∀ id, 0 < svr.outer id → Content.Stays svr.items.content items.content id) :
    Ok right { svr with items := items } extra' fresh' where
  exact := exact
  dicts := fun place dct found =>
    Content.Stays.dictOk (fun slot member => stays slot (outer_dict found member))
      (ok.dicts place dct found)
  there := ok.there
  positive := ok.positive
  args := fun client conn found arg member => (stays arg (outer_arg found member)).isStr
    (ok.args client conn found arg member)
  names := by
    intro client conn found first isFirst
    have member : first ∈ conn.args := List.mem_of_mem_head? isFirst
    rw [(stays first (outer_arg found member)).strOf (ok.args client conn found first member)]
    exact ok.names client conn found first isFirst
  dbIdx := ok.dbIdx
  casts := ok.casts

/-- A dictionary is another one, and references make up for its slots. -/
theorem withDict {new : FkDict Nat Nat} {extra' : List Nat} (ok : Ok right svr extra fresh)
    (found : svr.dicts.find place = some dct) (newOk : DictOk svr.items.content place.1 new)
    (slots : ∀ id, (dictSlots new).count id + extra'.count id = (dictSlots dct).count id +
      extra.count id) :
    Ok right { svr with dicts := svr.dicts.put place new } extra' fresh where
  exact := by
    have same : plus (FkSvr.outer { svr with dicts := svr.dicts.put place new }) extra' =
        plus svr.outer extra := by
      funext id
      have whole := svr.dicts.total_put place new fun dct => (dictSlots dct).count id
      rw [Objects.weightAt, found, Option.elim_some] at whole
      have balance := slots id
      unfold plus FkSvr.outer
      dsimp only
      omega
    rw [same]
    exact ok.exact
  dicts := Objects.each_put ok.dicts newOk
  there := by
    intro isexp idx below
    obtain ⟨old, there⟩ := ok.there isexp idx below
    change ∃ dct, (svr.dicts.put place new).find (isexp, idx) = some dct
    rw [Objects.find_put]
    by_cases equal : (isexp, idx) = place
    · rw [equal, Function.update_self]
      exact ⟨new, rfl⟩
    · rw [Function.update_of_ne equal]
      exact ⟨old, there⟩
  positive := ok.positive
  args := ok.args
  names := ok.names
  dbIdx := ok.dbIdx
  casts := ok.casts

/-- A connection is made or another one, and references make up for its arguments. -/
theorem withConn {new : FkConn} {old : List Nat} {extra' : List Nat} (ok : Ok right svr extra fresh)
    (found : (svr.conns.find client).elim [] FkConn.args = old)
    (strs : ∀ arg ∈ new.args, svr.items.content.IsStr arg)
    (named : svr.items.content.NotEval new.args) (dbIdx : new.out.dbIdx < svr.dbcnt)
    (slots : ∀ id, new.args.count id + extra'.count id = old.count id + extra.count id) :
    Ok right { svr with conns := svr.conns.put client new } extra' fresh where
  exact := by
    have same : plus (FkSvr.outer { svr with conns := svr.conns.put client new }) extra' =
        plus svr.outer extra := by
      funext id
      have whole := svr.conns.total_put client new fun conn => conn.args.count id
      have weight : svr.conns.weightAt client (fun conn => conn.args.count id) = old.count id := by
        rw [Objects.weightAt, ← found]
        cases svr.conns.find client <;> rfl
      have balance := slots id
      unfold plus FkSvr.outer
      dsimp only
      omega
    rw [same]
    exact ok.exact
  dicts := ok.dicts
  there := ok.there
  positive := ok.positive
  args := Objects.each_put ok.args strs
  names := Objects.each_put ok.names named
  dbIdx := Objects.each_put ok.dbIdx dbIdx
  casts := ok.casts

/-- A connection without arguments goes. -/
theorem dropConn (ok : Ok right svr extra fresh)
    (found : (svr.conns.find client).elim [] FkConn.args = []) :
    Ok right { svr with conns := svr.conns.drop client } extra fresh where
  exact := by
    have same : plus (FkSvr.outer { svr with conns := svr.conns.drop client }) extra =
        plus svr.outer extra := by
      funext id
      have whole := svr.conns.total_drop client fun conn => conn.args.count id
      have weight : svr.conns.weightAt client (fun conn => conn.args.count id) = 0 := by
        rw [Objects.weightAt]
        cases there : svr.conns.find client with
        | none => rfl
        | some conn =>
            rw [there] at found
            change conn.args = [] at found
            rw [Option.elim_some, found]
            rfl
      unfold plus FkSvr.outer
      dsimp only
      omega
    rw [same]
    exact ok.exact
  dicts := ok.dicts
  there := ok.there
  positive := ok.positive
  args := Objects.each_drop ok.args
  names := Objects.each_drop ok.names
  dbIdx := Objects.each_drop ok.dbIdx
  casts := ok.casts

theorem withCasts {casts : List (FkItemType × FkItemType)} (ok : Ok right svr extra fresh)
    (good : right → ∀ cast ∈ casts, cast.1 = cast.2) : Ok right
    { svr with casts := casts } extra fresh :=
  ⟨ok.exact, ok.dicts, ok.there, ok.positive, ok.args, ok.names, ok.dbIdx, good⟩

theorem withReadings (ok : Ok right svr extra fresh) (readings : Nat) : Ok right
    { svr with readings := readings } extra fresh :=
  ⟨ok.exact, ok.dicts, ok.there, ok.positive, ok.args, ok.names, ok.dbIdx, ok.casts⟩

end Ok

end Freekick.Refs
