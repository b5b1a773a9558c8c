import Freekick.Refs.Balance

/-!
# Operations that keep the balance

Looking at items only notes casts.  Taking and giving up references, making items and changing
dictionaries leave a server in balance.
-/

namespace Freekick.Refs

open Lib Lib.Call FkItems

variable {right : Prop} {svr : FkSvr} {extra : List Nat} {fresh : Set Nat} {id client : Nat}
  {place : Bool × Nat} {dct : FkDict Nat Nat} {key value : Nat}

/-! ## Looking -/

/-- The call gives that value and notes casts; the server stays in balance. -/
def Reads {A : Type} (right : Prop) (extra : List Nat) (fresh : Set Nat) (act : Act FkSvr A)
    (svr : FkSvr) (value : A) : Prop :=
  ∃ casts, act svr = .ok value { svr with casts := casts } ∧
    Ok right { svr with casts := casts } extra fresh

theorem Reads.pure {A : Type} (ok : Ok right svr extra fresh) (value : A) :
    Reads right extra fresh (Pure.pure value) svr value :=
  ⟨svr.casts, rfl, ok⟩

theorem Reads.bind {A B : Type} {act : Act FkSvr A} {next : A → Act FkSvr B} {value : A}
    {result : B} (first : Reads right extra fresh act svr value)
    (later : ∀ casts, Ok right { svr with casts := casts } extra fresh →
      Reads right extra fresh (next value) { svr with casts := casts } result) :
    Reads right extra fresh (act >>= next) svr result := by
  obtain ⟨casts, called, ok⟩ := first
  obtain ⟨more, further, last⟩ := later casts ok
  exact ⟨more, (Act.bind_ok called).trans further, last⟩

theorem raw_reads {type : FkItemType} {entity : Entity} (ok : Ok right svr extra fresh)
    (there : svr.items.content id = some (type, entity)) :
    Reads right extra fresh (raw type id) svr entity := by
  obtain ⟨item, found⟩ := find_of_content (by rw [there]; rfl)
  have known := content_eq found
  rw [there] at known
  obtain ⟨rfl, rfl⟩ := Prod.mk.inj (Option.some.inj known)
  refine ⟨(item.type, item.type) :: svr.casts, ?_, ok.withCasts fun good cast member => ?_⟩
  · unfold raw
    rw [found]
  · rcases List.mem_cons.mp member with rfl | old
    · rfl
    · exact ok.casts good cast old

theorem rawStr_reads (ok : Ok right svr extra fresh) (is : svr.items.content.IsStr id) :
    Reads right extra fresh (rawStr id) svr (svr.items.content.strOf id) :=
  (raw_reads ok is.strOf).bind fun _ still => .pure still _

theorem rawList_reads {nodes : List Nat} (ok : Ok right svr extra fresh)
    (there : svr.items.content id = some (.list, .list nodes)) :
    Reads right extra fresh (rawList id) svr nodes :=
  (raw_reads ok there).bind fun _ still => .pure still _

theorem rawDict_reads {fields : FkDict Nat Nat} (ok : Ok right svr extra fresh)
    (there : svr.items.content id = some (.dict, .dict fields)) :
    Reads right extra fresh (rawDict id) svr fields :=
  (raw_reads ok there).bind fun _ still => .pure still _

theorem rawNum_reads {number : Int} (ok : Ok right svr extra fresh)
    (there : svr.items.content id = some (.num, .num number)) :
    Reads right extra fresh (rawNum id) svr number :=
  (raw_reads ok there).bind fun _ still => .pure still _

theorem lookStr_reads (ok : Ok right svr extra fresh) (is : svr.items.content.IsStr id) :
    Reads right extra fresh (lookStr id) svr () :=
  (rawStr_reads ok is).bind fun _ still => .pure still _

/-- A loop of looks. -/
theorem forEach_reads {I : Type} {body : I → Act FkSvr Unit} {items : List I}
    (ok : Ok right svr extra fresh)
    (each : ∀ item ∈ items, ∀ casts, Ok right { svr with casts := casts } extra fresh →
      Reads right extra fresh (body item) { svr with casts := casts } ()) :
    Reads right extra fresh (Act.forEach body items) svr () := by
  induction items generalizing svr with
  | nil => exact .pure ok ()
  | cons item rest ih =>
      refine (each item (List.mem_cons_self ..) svr.casts ok).bind fun casts still => ?_
      exact ih still fun other member => each other (List.mem_cons_of_mem _ member)

theorem lookStrs_reads {ids : List Nat} (ok : Ok right svr extra fresh)
    (strs : ∀ id ∈ ids, svr.items.content.IsStr id) :
    Reads right extra fresh (Act.forEach lookStr ids) svr () :=
  forEach_reads ok fun id member _ still => lookStr_reads still (strs id member)

theorem readKeys_reads (ok : Ok right svr extra fresh) (is : svr.items.content.IsStr key)
    (keys : ∀ elt ∈ dct.elements, svr.items.content.IsStr elt.1) :
    Reads right extra fresh (readKeys key dct) svr () := by
  refine lookStrs_reads ok fun id member => ?_
  rcases List.mem_cons.mp member with rfl | stored
  · exact is
  · obtain ⟨elt, inside, rfl⟩ := List.mem_map.mp stored
    exact keys elt inside

theorem dictGet_reads (ok : Ok right svr extra fresh) (is : svr.items.content.IsStr key)
    (keys : ∀ elt ∈ dct.elements, svr.items.content.IsStr elt.1) :
    Reads right extra fresh (dictGet dct key) svr (fkDictGet svr.items.content.eop dct key) :=
  (readKeys_reads ok is keys).bind fun casts still => ⟨casts, rfl, still⟩

theorem dictAt_eq (found : svr.dicts.find place = some dct) : dictAt place svr = .ok dct svr := by
  unfold dictAt
  rw [found]

theorem dbGet_reads (ok : Ok right svr extra fresh) (found : svr.dicts.find place = some dct)
    (is : svr.items.content.IsStr key) :
    Reads right extra fresh (dbGet place key) svr (fkDictGet svr.items.content.eop dct key) := by
  obtain ⟨casts, called, still⟩ := dictGet_reads ok is (ok.dicts place dct found).keys
  exact ⟨casts, (Act.bind_ok (dictAt_eq found)).trans called, still⟩

theorem itemAt_eq {type : FkItemType} {entity : Entity}
    (there : svr.items.content id = some (type, entity)) :
    ∃ item, itemAt id svr = .ok item svr ∧ item.type = type ∧ item.entity = entity := by
  obtain ⟨item, found⟩ := find_of_content (by rw [there]; rfl)
  have known := content_eq found
  rw [there] at known
  obtain ⟨rfl, rfl⟩ := Prod.mk.inj (Option.some.inj known)
  refine ⟨item, ?_, rfl, rfl⟩
  unfold itemAt
  rw [found]

/-! ## References -/

theorem plus_cons (claims : Nat → Nat) (id : Nat) (ids : List Nat) : plus claims
    (id :: ids) = plus (plus claims ids) [id] := by
  rw [← plus_append]
  exact plus_perm claims (List.perm_append_singleton id ids).symm

theorem plus_front (claims : Nat → Nat) (first second : List Nat) :
    plus claims (first ++ second) = plus (plus claims second) first := by
  rw [← plus_append]
  exact plus_perm claims List.perm_append_comm

theorem onItems_eq {A : Type} {act : Act FkItems A} {value : A} {items : FkItems}
    (called : act svr.items = .ok value items) :
    onItems act svr = .ok value { svr with items := items } := by
  unfold onItems
  rw [called]
  rfl

/-- What is still in a slot outside stays, whatever is destroyed. -/
theorem Ok.stays_of_shrinks {items : FkItems} {claims : List Nat}
    (exact : items.Exact (plus svr.outer claims) fresh)
    (shrinks : Shrinks svr.items items) (id : Nat) (held : 0 < svr.outer id) :
    Content.Stays svr.items.content items.content id :=
  .of_eq (shrinks.claimed exact (Nat.lt_of_lt_of_le held (Nat.le_add_right _ _)))

theorem decRef_ok (ok : Ok right svr (id :: extra) fresh) :
    ∃ items, fkItemDecRef id svr.items = .ok () items ∧
      Ok right { svr with items := items } extra fresh ∧ Shrinks svr.items items := by
  have exact' := ok.exact
  rw [plus_cons] at exact'
  obtain ⟨items, called, after, shrinks⟩ := fkItemDecRef_exact exact'
  exact ⟨items, called, ok.withItems after (Ok.stays_of_shrinks after shrinks), shrinks⟩

theorem decRefs_ok {ids : List Nat} (ok : Ok right svr (ids ++ extra) fresh) :
    ∃ items, Act.forEach fkItemDecRef ids svr.items = .ok () items ∧
      Ok right { svr with items := items } extra fresh ∧ Shrinks svr.items items := by
  have exact' := ok.exact
  rw [plus_front] at exact'
  obtain ⟨items, called, after, shrinks⟩ := fkItemDecRefs_exact exact'
  exact ⟨items, called, ok.withItems after (Ok.stays_of_shrinks after shrinks), shrinks⟩

theorem incRef_ok (ok : Ok right svr extra fresh) (live : (svr.items.content id).isSome = true) :
    ∃ items, fkItemIncRef id svr.items = .ok () items ∧
      Ok right { svr with items := items } (id :: extra) (fresh \ {id}) ∧
        items.content = svr.items.content := by
  obtain ⟨items, called, after, same⟩ := fkItemIncRef_exact ok.exact live
  rw [← plus_cons] at after
  exact ⟨items, called, ok.withItems after fun _ _ => .of_eq (congrFun same _), same⟩

theorem incRefs_ok {ids : List Nat} (ok : Ok right svr extra ∅)
    (live : ∀ id ∈ ids, (svr.items.content id).isSome = true) :
    ∃ items, Act.forEach fkItemIncRef ids svr.items = .ok () items ∧
      Ok right { svr with items := items } (ids ++ extra) ∅ ∧
        items.content = svr.items.content := by
  obtain ⟨items, called, after, same⟩ := fkItemIncRefs_exact ok.exact live
  rw [← plus_front] at after
  exact ⟨items, called, ok.withItems after fun _ _ => .of_eq (congrFun same _), same⟩

theorem Ok.live_of_outer (ok : Ok right svr extra fresh) (held : 0 < svr.outer id) :
    (svr.items.content id).isSome = true := by
  obtain ⟨item, found, _⟩ := ok.exact.find_of_claim (Nat.lt_of_lt_of_le held (Nat.le_add_right _ _))
  rw [content_eq found]
  rfl

theorem create_ok (entity : Entity) (ok : Ok right svr (entity.slots ++ extra) fresh)
    (typed : svr.items.content.Typed entity) :
    ∃ id items, fkItemCreate entity.type entity svr.items = .ok id items ∧
      svr.items.content id = none ∧ Ok right { svr with items := items } extra (insert id fresh) ∧
      items.content = Function.update svr.items.content id (some (entity.type, entity)) := by
  have exact' := ok.exact
  rw [plus_front] at exact'
  obtain ⟨id, items, called, none, after, content⟩ := fkItemCreate_exact exact' typed
  refine ⟨id, items, called, none, ok.withItems after fun other held => .of_eq ?_, content⟩
  rw [content, Function.update_of_ne]
  rintro rfl
  have live := ok.live_of_outer held
  rw [none] at live
  cases live

theorem setEntity_ok {type : FkItemType} {old : Entity} (new : Entity) (added gone : List Nat)
    (ok : Ok right svr (added ++ extra) fresh) (there : svr.items.content id = some (type, old))
    (same : new.type = old.type) (kind : old.type = .list ∨ old.type = .dict)
    (slots : ∀ slot, new.slots.count slot + gone.count slot = old.slots.count slot +
      added.count slot)
    (typed : svr.items.content.Typed new) :
    ∃ items, setEntity id new svr.items = .ok () items ∧
      Ok right { svr with items := items } (gone ++ extra) fresh := by
  have notStr : old.type ≠ .str := by
    rcases kind with is | is <;> rw [is] <;> exact nofun
  have sameType := (ok.exact.typed id _ _ there).1
  have exact' := ok.exact
  rw [plus_front] at exact'
  obtain ⟨items, called, after, content⟩ :=
    setEntity_exact exact' there same (update_notStr there notStr) slots typed
  rw [← plus_front] at after
  refine ⟨items, called, ok.withItems after fun other _ => ?_⟩
  intro otherType entity is
  by_cases equal : other = id
  · rw [equal, there] at is
    cases is
    refine ⟨new, by rw [content, equal, Function.update_self], ?_⟩
    rintro (isStr | isNum)
    · exact (notStr (sameType.symm.trans isStr)).elim
    · have isNumToo := sameType.symm.trans isNum
      rcases kind with is | is <;> rw [is] at isNumToo <;> cases isNumToo
  · exact ⟨entity, by rw [content, Function.update_of_ne equal, is], fun _ => rfl⟩

/-! ## Dictionaries -/

/-- The keys and values of some elements. -/
def slotsOf (elts : List (Nat × Nat)) : List Nat := elts.flatMap fun elt => [elt.1, elt.2]

theorem dictSlots_perm {elts : List (Nat × Nat)} (perm : dct.elements.Perm elts) :
    (dictSlots dct).Perm (slotsOf elts) :=
  perm.flatMap_right _

theorem Ok.perm {other : List Nat} (ok : Ok right svr extra fresh) (perm : extra.Perm other) :
    Ok right svr other fresh :=
  ⟨plus_perm svr.outer perm ▸ ok.exact, ok.dicts, ok.there, ok.positive, ok.args, ok.names,
    ok.dbIdx, ok.casts⟩

/-- What is in use is as it was. -/
theorem Shrinks.of_live {before after : FkItems} (shrinks : Shrinks before after)
    (live : (after.content id).isSome = true) :
    after.content id = before.content id := by
  obtain ⟨item, found⟩ := find_of_content live
  rw [content_eq found]
  exact (shrinks id _ (content_eq found)).symm

/-- A reference that is in no slot. -/
theorem Ok.live_of_extra (ok : Ok right svr extra fresh) (member : id ∈ extra) :
    (svr.items.content id).isSome = true := by
  have claimed : 0 < plus svr.outer extra id :=
    Nat.lt_of_lt_of_le (List.count_pos_iff.mpr member) (Nat.le_add_left _ _)
  obtain ⟨item, found, _⟩ := ok.exact.find_of_claim claimed
  rw [content_eq found]
  rfl

/-- Whether a key is in a dictionary depends on the bytes of the keys only. -/
theorem fkDictGet_none_iff {content : Content} (wf : dct.Wf content.eop) :
    fkDictGet content.eop dct key = none ↔ ∀ elt ∈ dct.elements,
      content.strOf elt.1 ≠ content.strOf key := by
  rw [(wf.represents content.eop_lawful).none_iff]
  exact forall₂_congr fun elt _ => not_congr content.eop_same

/-- A new key takes references to itself and to its value. -/
theorem dictAdd_absent (ok : Ok right svr extra fresh) (wf : dct.Wf svr.items.content.eop)
    (keys : ∀ elt ∈ dct.elements, svr.items.content.IsStr elt.1) (is : svr.items.content.IsStr key)
    (live : (svr.items.content value).isSome = true)
    (absent : fkDictGet svr.items.content.eop dct key = none) :
    ∃ items casts added, dictAdd dct key value svr = .ok (.ok, added)
      { svr with items := items, casts := casts } ∧ items.content = svr.items.content ∧
      added.Wf svr.items.content.eop ∧ added.elements.Perm ((key, value) :: dct.elements) ∧
      Ok right { svr with items := items, casts := casts } (value :: key :: extra)
        ((fresh \ {key}) \ {value}) := by
  obtain ⟨casts, read, still⟩ := readKeys_reads ok is keys
  obtain ⟨code, addedWf, perm⟩ := fkDictAdd_absent svr.items.content.eop_lawful wf absent value
  obtain ⟨taken, first, once, same⟩ := incRef_ok still is.live
  obtain ⟨items, second, both, equal⟩ := incRef_ok once (by
    dsimp only
    rw [same]
    exact live)
  refine ⟨items, casts, (fkDictAdd svr.items.content.eop dct key value).2, ?_, equal.trans same,
    addedWf, perm, both⟩
  refine (Act.bind_ok read).trans ((Act.read_bind _ _ _).trans ?_)
  dsimp only
  rw [code]
  refine (Act.bind_ok (onItems_eq first)).trans ((Act.bind_ok (onItems_eq second)).trans ?_)
  rw [← code]
  rfl

/-- A key that is there changes nothing but the size of the table. -/
theorem dictAdd_present (ok : Ok right svr extra fresh) (wf : dct.Wf svr.items.content.eop)
    (keys : ∀ elt ∈ dct.elements, svr.items.content.IsStr elt.1) (is : svr.items.content.IsStr key)
    (present : fkDictGet svr.items.content.eop dct key ≠ none) :
    ∃ casts kept, dictAdd dct key value svr = .ok (.err, kept) { svr with casts := casts } ∧
      kept.Wf svr.items.content.eop ∧ kept.elements.Perm dct.elements ∧
      fkDictGet svr.items.content.eop kept key ≠ none ∧
        Ok right { svr with casts := casts } extra fresh := by
  obtain ⟨casts, read, still⟩ := readKeys_reads ok is keys
  obtain ⟨code, keptWf, perm⟩ := fkDictAdd_present svr.items.content.eop_lawful wf present value
  refine ⟨casts, (fkDictAdd svr.items.content.eop dct key value).2, ?_, keptWf, perm, ?_, still⟩
  · refine (Act.bind_ok read).trans ((Act.read_bind _ _ _).trans ?_)
    dsimp only
    rw [code]
    refine Eq.trans ?_ (congrArg (fun code => Outcome.ok (code, _) _) code)
    rfl
  · rw [fkDictGet_perm svr.items.content.eop_lawful keptWf wf perm]
    exact present

/-! ## Databases -/

/-- What an operation on a database leaves alone. -/
structure Rest (svr after : FkSvr) : Prop where
  conns : after.conns = svr.conns
  dbcnt : after.dbcnt = svr.dbcnt
  items : Shrinks svr.items after.items

theorem Rest.trans {first second third : FkSvr} (one : Rest first second)
    (two : Rest second third) : Rest first third :=
  ⟨two.conns.trans one.conns, two.dbcnt.trans one.dbcnt, one.items.trans two.items⟩

/-- More elements that belong there. -/
theorem DictOk.grow {content : Content} {isexp : Bool} {new : FkDict Nat Nat}
    {elts : List (Nat × Nat)} (wf : new.Wf content.eop)
    (perm : new.elements.Perm elts) (keys : ∀ elt ∈ elts, content.IsStr elt.1)
    (values : ∀ elt ∈ elts, content.Belongs isexp elt.2) : DictOk content isexp new :=
  ⟨wf, fun elt member => keys elt (perm.subset member),
    fun elt member => values elt (perm.subset member)⟩

theorem dbAdd_absent (ok : Ok right svr extra fresh) (found : svr.dicts.find place = some dct)
    (is : svr.items.content.IsStr key) (belongs : svr.items.content.Belongs place.1 value)
    (absent : fkDictGet svr.items.content.eop dct key = none) :
    ∃ after, dbAdd place key value svr = .ok .ok after ∧ Rest svr after ∧
      Ok right after extra ((fresh \ {key}) \ {value}) := by
  obtain ⟨wf, keys, values⟩ := ok.dicts place dct found
  obtain ⟨items, casts, added, called, same, addedWf, perm, taken⟩ :=
    dictAdd_absent ok wf keys is belongs.live absent
  have newOk : DictOk items.content place.1 added := by
    rw [same]
    refine DictOk.grow addedWf perm (fun elt member => ?_) fun elt member => ?_
    · rcases List.mem_cons.mp member with rfl | old
      · exact is
      · exact keys elt old
    · rcases List.mem_cons.mp member with rfl | old
      · exact belongs
      · exact values elt old
  refine ⟨_, (Act.bind_ok (dictAt_eq found)).trans (Act.bind_ok called),
    ⟨rfl, rfl, .of_eq same⟩, ?_⟩
  refine taken.withDict found newOk fun id => ?_
  rw [(dictSlots_perm perm).count_eq]
  unfold slotsOf dictSlots
  rw [List.flatMap_cons, List.count_append]
  simp only [List.count_cons, List.count_nil]
  omega

theorem dbAdd_present (ok : Ok right svr extra fresh) (found : svr.dicts.find place = some dct)
    (is : svr.items.content.IsStr key) (present : fkDictGet svr.items.content.eop dct key ≠ none) :
    ∃ after kept, dbAdd place key value svr = .ok .err after ∧ after.items = svr.items ∧
      after.conns = svr.conns ∧ after.dbcnt = svr.dbcnt ∧ after.dicts.find place = some kept ∧
      fkDictGet svr.items.content.eop kept key ≠ none ∧ Ok right after extra fresh := by
  obtain ⟨wf, keys, values⟩ := ok.dicts place dct found
  obtain ⟨casts, kept, called, keptWf, perm, still, after⟩ :=
    @dictAdd_present _ _ _ _ _ _ value ok wf keys is present
  refine ⟨_, kept, (Act.bind_ok (dictAt_eq found)).trans (Act.bind_ok called), rfl, rfl, rfl,
    Function.update_self .., still, ?_⟩
  refine after.withDict found (DictOk.grow keptWf perm keys values) fun id => ?_
  rw [(dictSlots_perm perm).count_eq]
  rfl

/-- An element that is found. -/
theorem fkDictElt_of_get {content : Content} (present : fkDictGet content.eop dct key ≠ none) :
    ∃ elt, fkDictElt content.eop dct key = some elt ∧
      fkDictGet content.eop dct key = some elt.2 := by
  rw [fkDictGet_eq_elt] at present ⊢
  cases found : fkDictElt content.eop dct key with
  | none =>
      rw [found] at present
      exact (present rfl).elim
  | some elt => exact ⟨elt, rfl, rfl⟩

/-- A value that is found belongs there. -/
theorem Ok.belongs (ok : Ok right svr extra fresh) (found : svr.dicts.find place = some dct)
    (got : fkDictGet svr.items.content.eop dct key = some value) :
    svr.items.content.Belongs place.1 value := by
  obtain ⟨wf, _, values⟩ := ok.dicts place dct found
  obtain ⟨stored, member, _⟩ := (wf.represents svr.items.content.eop_lawful key value).mp got
  exact values _ member

/-- The state in which an element is taken out of its dictionary already. -/
theorem Ok.taken {elt : Nat × Nat} (ok : Ok right svr extra fresh)
    (found : svr.dicts.find place = some dct)
    (searched : fkDictElt svr.items.content.eop dct key = some elt) :
    Ok right
      { svr with dicts := svr.dicts.put place (fkDictRemove svr.items.content.eop dct key).2 }
      (elt.2 :: elt.1 :: extra) fresh := by
  obtain ⟨wf, keys, values⟩ := ok.dicts place dct found
  obtain ⟨rest, perm, _, removed, _⟩ := fkDictElt_some wf searched
  have removedWf := (fkDictRemove_spec svr.items.content.eop_lawful wf key).2.1
  refine ok.withDict found (DictOk.grow removedWf removed (fun other member => ?_)
    fun other member => ?_) fun id => ?_
  · exact keys other (perm.symm.subset (List.mem_cons_of_mem _ member))
  · exact values other (perm.symm.subset (List.mem_cons_of_mem _ member))
  · rw [(dictSlots_perm removed).count_eq, (dictSlots_perm perm).count_eq]
    unfold slotsOf
    rw [List.flatMap_cons, List.count_append]
    simp only [List.count_cons, List.count_nil]
    omega

theorem dbRemove_ok (ok : Ok right svr extra fresh) (found : svr.dicts.find place = some dct)
    (is : svr.items.content.IsStr key) :
    ∃ removed after, dbRemove place key svr = .ok removed after ∧ Rest svr after ∧
      Ok right after extra fresh ∧ ∀ other, other ≠ place →
      after.dicts.find other = svr.dicts.find other := by
  obtain ⟨casts, read, still⟩ := readKeys_reads ok is (ok.dicts place dct found).keys
  unfold dbRemove
  cases searched : fkDictElt svr.items.content.eop dct key with
  | none =>
      refine ⟨false, { svr with casts := casts }, ?_, ⟨rfl, rfl, .of_eq rfl⟩, still, fun _ _ => rfl⟩
      refine (Act.bind_ok (dictAt_eq found)).trans
        ((Act.bind_ok read).trans ((Act.read_bind _ _ _).trans ?_))
      dsimp only
      rw [searched]
      rfl
  | some elt =>
      obtain ⟨first, gone, middle, shrinks⟩ :=
        decRef_ok ((still.taken found searched).perm (.swap ..))
      obtain ⟨second, last, after, further⟩ := decRef_ok middle
      have rest : Rest svr { svr with
          items := second
          casts := casts
          dicts := svr.dicts.put place (fkDictRemove svr.items.content.eop dct key).2 } :=
          ⟨rfl, rfl, shrinks.trans further⟩
      refine ⟨true, _, ?_, rest, after, fun other apart => Function.update_of_ne apart ..⟩
      refine (Act.bind_ok (dictAt_eq found)).trans
        ((Act.bind_ok read).trans ((Act.read_bind _ _ _).trans ?_))
      dsimp only
      rw [searched]
      exact (Act.read_bind _ _ _).trans
        ((Act.bind_ok rfl).trans ((Act.bind_ok (onItems_eq gone)).trans
          (Act.bind_ok (onItems_eq last))))

theorem dbEmpty_ok (ok : Ok right svr extra fresh) (found : svr.dicts.find place = some dct) :
    ∃ after, dbEmpty place svr = .ok () after ∧ Rest svr after ∧ Ok right after extra fresh ∧
      ∀ other, other ≠ place → after.dicts.find other = svr.dicts.find other := by
  have cleared : Ok right { svr with dicts := svr.dicts.put place (fkDictEmpty dct) }
      (dictSlots dct ++ extra) fresh := by
    have none : (fkDictEmpty dct).elements = [] := fkDictInit_elements
    refine ok.withDict found ⟨fkDictInit_wf, fun elt member => ?_, fun elt member => ?_⟩
      fun id => ?_
    · cases none ▸ member
    · cases none ▸ member
    · rw [List.count_append]
      exact Nat.zero_add _
  obtain ⟨items, released, after, shrinks⟩ := decRefs_ok cleared
  have called : dbEmpty place svr = _ :=
    (Act.bind_ok (dictAt_eq found)).trans ((Act.bind_ok rfl).trans (onItems_eq released))
  exact ⟨_, called, ⟨rfl, rfl, shrinks⟩, after, fun other apart => Function.update_of_ne apart ..⟩

/-- Something holds the item while the value of a key is replaced by it. -/
def Held (svr : FkSvr) (fresh : Set Nat) (id : Nat) : Prop :=
  id ∈ fresh ∨ ∃ client conn, svr.conns.find client = some conn ∧ id ∈ conn.args

theorem dbRevalue_ok (ok : Ok right svr extra fresh) (found : svr.dicts.find place = some dct)
    (is : svr.items.content.IsStr key) (belongs : svr.items.content.Belongs place.1 value)
    (held : Held svr fresh value) (present : fkDictGet svr.items.content.eop dct key ≠ none) :
    ∃ after, dbRevalue place key value svr = .ok () after ∧ Rest svr after ∧
      Ok right after extra (fresh \ {value}) := by
  obtain ⟨wf, keys, values⟩ := ok.dicts place dct found
  obtain ⟨casts, read, still⟩ := dictGet_reads ok is keys
  obtain ⟨elt, searched, old⟩ := fkDictElt_of_get present
  obtain ⟨rest, perm, _, removed, put⟩ := fkDictElt_some wf searched
  have putWf := (fkDictPut_spec svr.items.content.eop_lawful wf present value).1
  obtain ⟨first, gone, middle, shrinks⟩ := decRef_ok (still.taken found searched)
  change Shrinks svr.items first at shrinks
  have live : (first.content value).isSome = true := by
    rcases held with isFresh | ⟨client, conn, there, member⟩
    · exact middle.exact.live value isFresh
    · exact (middle.args client conn there value member).live
  obtain ⟨items, taken, after, same⟩ := incRef_ok middle live
  have dropped : onItems (fkItemDecRef elt.2) { svr with casts := casts } = .ok ()
      { svr with items := first, casts := casts } :=
    onItems_eq gone
  have kept : onItems (fkItemIncRef value) { svr with items := first, casts := casts } =
      .ok () { svr with items := items, casts := casts } := onItems_eq taken
  -- every slot of the new dictionary is still in use
  have slots : ∀ slot ∈ dictSlots (fkDictPut svr.items.content.eop dct key value),
      items.content slot = svr.items.content slot := by
    intro slot member
    rw [same]
    refine Shrinks.of_live shrinks ?_
    rcases List.mem_append.mp ((dictSlots_perm (put value)).subset member) with here | others
    · rcases List.mem_cons.mp here with rfl | only
      · exact middle.live_of_extra (List.mem_cons_self ..)
      · rw [List.mem_singleton.mp only]
        exact live
    · refine middle.live_of_outer ?_
      refine Ok.outer_dict (Function.update_self ..) ?_
      exact (dictSlots_perm removed).symm.subset others
  have putOk : DictOk items.content place.1 (fkDictPut svr.items.content.eop dct key value) := by
    refine Content.Stays.dictOk (fun slot member => .of_eq (slots slot member)) ?_
    refine DictOk.grow putWf (put value) (fun other member => ?_) fun other member => ?_
    · rcases List.mem_cons.mp member with rfl | old
      · exact keys elt (perm.symm.subset (List.mem_cons_self ..))
      · exact keys other (perm.symm.subset (List.mem_cons_of_mem _ old))
    · rcases List.mem_cons.mp member with rfl | old
      · exact belongs
      · exact values other (perm.symm.subset (List.mem_cons_of_mem _ old))
  have last : Ok right _ extra _ := after.withDict (Function.update_self ..) putOk fun id => by
    rw [(dictSlots_perm removed).count_eq, (dictSlots_perm (put value)).count_eq]
    unfold slotsOf
    rw [List.flatMap_cons, List.count_append]
    simp only [List.count_cons, List.count_nil]
    omega
  rw [Objects.put_put] at last
  refine ⟨_, ?_, ?_, last⟩
  · refine (Act.bind_ok (dictAt_eq found)).trans ((Act.bind_ok read).trans ?_)
    rw [old]
    refine (Act.read_bind _ _ _).trans ?_
    exact (Act.bind_ok dropped).trans ((Act.bind_ok kept).trans rfl)
  · exact ⟨rfl, rfl, fun id known is => shrinks id known (by rw [← same]; exact is)⟩

theorem dbReplace_ok (ok : Ok right svr extra fresh) (found : svr.dicts.find place = some dct)
    (is : svr.items.content.IsStr key) (belongs : svr.items.content.Belongs place.1 value)
    (held : Held svr fresh value) (notFresh : key ∉ fresh) :
    ∃ after, dbReplace place key value svr = .ok () after ∧ Rest svr after ∧
      Ok right after extra (fresh \ {value}) := by
  by_cases absent : fkDictGet svr.items.content.eop dct key = none
  · obtain ⟨after, added, rest, kept⟩ := dbAdd_absent ok found is belongs absent
    rw [Set.sdiff_singleton_eq_self notFresh] at kept
    exact ⟨after, (Act.bind_ok added).trans rfl, rest, kept⟩
  · obtain ⟨middle, wide, failed, items, conns, dbcnt, there, present, between⟩ :=
      @dbAdd_present _ _ _ _ _ _ _ value ok found is absent
    have still : Held middle fresh value := by
      unfold Held
      rw [conns]
      exact held
    rw [← items] at is belongs present
    obtain ⟨after, called, rest, kept⟩ := dbRevalue_ok between there is belongs still present
    refine ⟨after, (Act.bind_ok failed).trans called,
      ⟨rest.conns.trans conns, rest.dbcnt.trans dbcnt, ?_⟩, kept⟩
    rw [← items]
    exact rest.items

end Freekick.Refs
