import Freekick.Store.System

/-!
# Two servers with the same databases

The same handler, run on two servers whose databases stand for the same maps, leaves
them with the same maps again.  The second server has a write buffer with enough free
space, so that every reply the first one could queue is queued there too.
-/

namespace Freekick

open Lib.Call Lib.KeyedMap

/-! ## Databases as maps -/

section Maps

variable {good : Bytes → Prop} {dct : FkDb} {key : Bytes} {item : FkItem}

theorem dbMap_eq_none : dbMap dct key = none ↔ fkDictGet dbDictEop dct key = none :=
  Option.map_eq_none_iff

theorem map_update (found : Bytes → Option FkItem) (key : Bytes) (item : FkItem) :
    (fun wanted => (update dbDictEop.Same found key item wanted).map FkItem.value) =
      update dbDictEop.Same (fun wanted => (found wanted).map FkItem.value) key item.value := by
  funext wanted
  unfold update
  split <;> rfl

theorem dbMap_add_absent (wf : dct.Wf dbDictEop) (absent : dbMap dct key = none) :
    dbMap (fkDictAdd dbDictEop dct key item).2 = update dbDictEop.Same
      (dbMap dct) key item.value := by
  unfold dbMap
  rw [fkDictAdd_get dbDictEop_lawful wf (dbMap_eq_none.mp absent), map_update]

theorem dbMap_add_present (wf : dct.Wf dbDictEop) (present : dbMap dct key ≠ none) :
    dbMap (fkDictAdd dbDictEop dct key item).2 = dbMap dct := by
  unfold dbMap
  rw [fkDictAdd_get_present dbDictEop_lawful wf (fun absent => present (dbMap_eq_none.mpr absent))]

theorem dbMap_replace (wf : dct.Wf dbDictEop) :
    dbMap (fkDictReplace dbDictEop dct key item).2 = update dbDictEop.Same
      (dbMap dct) key item.value := by
  unfold dbMap
  rw [(fkDictReplace_spec dbDictEop_lawful wf key item).2.2, map_update]

theorem dbMap_put_absent (wf : dct.Wf dbDictEop) (absent : dbMap dct key = none) :
    dbMap (fkDictPut dbDictEop dct key item) = dbMap dct := by
  rw [fkDictPut_absent dbDictEop_lawful wf (dbMap_eq_none.mp absent)]

theorem dbMap_put_present (wf : dct.Wf dbDictEop) (present : dbMap dct key ≠ none) :
    dbMap (fkDictPut dbDictEop dct key item) = update dbDictEop.Same
      (dbMap dct) key item.value := by
  unfold dbMap
  rw [(fkDictPut_spec dbDictEop_lawful wf
    (fun absent => present (dbMap_eq_none.mpr absent)) item).2, map_update]

theorem dbMap_remove (wf : dct.Wf dbDictEop) :
    dbMap (fkDictRemove dbDictEop dct key).2 = erase dbDictEop.Same (dbMap dct) key := by
  unfold dbMap
  rw [(fkDictRemove_spec dbDictEop_lawful wf key).2.2]
  funext wanted
  unfold erase
  split <;> rfl

end Maps

/-! ## Matching servers -/

/-- Both databases hold what handlers can store and stand for the same map. -/
structure DbMatch (left right : FkDb) : Prop where
  left_ok : DbOk ArgName left
  right_ok : DbOk ArgName right
  same : dbMap left = dbMap right

/-- The expiry dictionaries are empty, as they are without `SETEX`. -/
structure SvrMatch (left right : FkSvr) : Prop where
  dbcnt : left.dbcnt = right.dbcnt
  dbs : ∀ idx, DbMatch (left.db idx) (right.db idx)
  left_exp : ∀ idx, left.expdb idx = fkDictCreate
  right_exp : ∀ idx, right.expdb idx = fkDictCreate

namespace DbMatch

variable {left right : FkDb} {key : Bytes} {item other : FkItem}

theorem add (dbs : DbMatch left right) (named : ArgName key) (first : item.Ok ArgName)
    (second : other.Ok ArgName) (equal : item.value = other.value) :
    DbMatch (fkDictAdd dbDictEop left key item).2 (fkDictAdd dbDictEop right key other).2 where
  left_ok := dbs.left_ok.add named first
  right_ok := dbs.right_ok.add named second
  same := by
    by_cases absent : dbMap left key = none
    · have also : dbMap right key = none := by rwa [← dbs.same]
      rw [dbMap_add_absent dbs.left_ok.wf absent, dbMap_add_absent dbs.right_ok.wf also,
        equal, dbs.same]
    · have also : dbMap right key ≠ none := by rwa [← dbs.same]
      rw [dbMap_add_present dbs.left_ok.wf absent, dbMap_add_present dbs.right_ok.wf also, dbs.same]

theorem replace (dbs : DbMatch left right) (named : ArgName key) (stored : item.Ok ArgName) :
    DbMatch (fkDictReplace dbDictEop left key item).2
      (fkDictReplace dbDictEop right key item).2 where
  left_ok := dbs.left_ok.replace named stored
  right_ok := dbs.right_ok.replace named stored
  same := by rw [dbMap_replace dbs.left_ok.wf, dbMap_replace dbs.right_ok.wf, dbs.same]

theorem put (dbs : DbMatch left right) (first : item.Ok ArgName) (second : other.Ok ArgName)
    (equal : item.value = other.value) :
    DbMatch (fkDictPut dbDictEop left key item) (fkDictPut dbDictEop right key other) where
  left_ok := dbs.left_ok.put first
  right_ok := dbs.right_ok.put second
  same := by
    by_cases absent : dbMap left key = none
    · have also : dbMap right key = none := by rwa [← dbs.same]
      rw [dbMap_put_absent dbs.left_ok.wf absent, dbMap_put_absent dbs.right_ok.wf also, dbs.same]
    · have also : dbMap right key ≠ none := by rwa [← dbs.same]
      rw [dbMap_put_present dbs.left_ok.wf absent, dbMap_put_present dbs.right_ok.wf also,
        equal, dbs.same]

theorem remove (dbs : DbMatch left right) (key : Bytes) :
    DbMatch (fkDictRemove dbDictEop left key).2 (fkDictRemove dbDictEop right key).2 where
  left_ok := dbs.left_ok.remove key
  right_ok := dbs.right_ok.remove key
  same := by rw [dbMap_remove dbs.left_ok.wf, dbMap_remove dbs.right_ok.wf, dbs.same]

theorem empty : DbMatch fkDictCreate fkDictCreate := ⟨fkDictCreate_ok, fkDictCreate_ok, rfl⟩

end DbMatch

namespace SvrMatch

variable {left right : FkSvr}

theorem setDb {idx : Nat} {first second : FkDb} (svrs : SvrMatch left right)
    (dbs : DbMatch first second) :
    SvrMatch (left.setDb idx first) (right.setDb idx second) where
  dbcnt := svrs.dbcnt
  dbs := by
    intro wanted
    by_cases same : wanted = idx
    · rw [same]
      simpa only [FkSvr.setDb, Function.update_self] using dbs
    · simpa only [FkSvr.setDb, Function.update_of_ne same] using svrs.dbs wanted
  left_exp := svrs.left_exp
  right_exp := svrs.right_exp

/-- An expiry dictionary that is emptied was empty. -/
theorem emptyExpdb {idx other : Nat} {first second : FkDb} (svrs : SvrMatch left right) :
    SvrMatch (left.setExpdb idx (fkDictEmpty first))
      (right.setExpdb other (fkDictEmpty second)) where
  dbcnt := svrs.dbcnt
  dbs := svrs.dbs
  left_exp := by
    intro wanted
    by_cases same : wanted = idx
    · rw [same]
      exact Function.update_self ..
    · exact (Function.update_of_ne same _ _).trans (svrs.left_exp wanted)
  right_exp := by
    intro wanted
    by_cases same : wanted = other
    · rw [same]
      exact Function.update_self ..
    · exact (Function.update_of_ne same _ _).trans (svrs.right_exp wanted)

end SvrMatch

/-- The servers match and the two connections have the given databases selected. -/
structure Paired (leftIdx rightIdx : Nat) (left right : Work) : Prop where
  svrs : SvrMatch left.svr right.svr
  left_idx : left.out.dbIdx = leftIdx
  right_idx : right.out.dbIdx = rightIdx

/-- The free space of the write buffer. -/
def Work.room (work : Work) : Nat := work.out.wbuf.fkBufFreeLen

/-- The second call follows the first on matching servers. -/
abbrev Mirrors {A B : Type} (leftIdx rightIdx : Nat) (same : A → B → Prop) (cost : Nat)
    (left : Act Work A) (right : Act Work B) : Prop :=
  Act.Follows (Paired leftIdx rightIdx) Work.room same cost left right

abbrev Done : Unit → Unit → Prop := fun _ _ => True

section Parts

variable {leftIdx rightIdx idx : Nat} {A B : Type}

/-- A reply costs its length, whatever the first server printed. -/
theorem addRsp_mirrors (text other : Bytes) (len cost : Nat) :
    Mirrors leftIdx rightIdx Done cost (addRsp text len) (addRsp other cost) := by
  intro first second paired enough value after called
  have unchanged : after.svr = first.svr ∧ after.out.dbIdx = first.out.dbIdx :=
    (@addRsp_keeps (fun work => work.svr = first.svr ∧ work.out.dbIdx = first.out.dbIdx)
      (fun _ _ same => same) text len first ⟨rfl, rfl⟩).1 value after called
  refine ⟨(), _, addRsp_room enough, trivial, ⟨?_, ?_, paired.right_idx⟩, ?_⟩
  · rw [unchanged.1]
    exact paired.svrs
  · rw [unchanged.2]
    exact paired.left_idx
  · have fits : (printed second.svr.junk other cost).length ≤ second.out.wbuf.fkBufFreeLen := by
      rw [length_printed]
      exact enough
    have high := FkBuf.append_high fits
    rw [length_printed] at high
    change second.out.wbuf.len - second.out.wbuf.high ≤
      second.out.wbuf.len - (second.out.wbuf.append _).high + cost
    rw [high]
    omega

theorem fkConnGetArg_mirrors (args : List Bytes) (index : Nat) :
    Mirrors leftIdx rightIdx (fun value other => value = other ∧ args[index]? = some value) 0
      (fkConnGetArg args index) (fkConnGetArg args index) := by
  unfold fkConnGetArg
  split
  · next arg given => exact Act.Follows.pure ⟨rfl, given⟩
  · exact Act.Follows.fault _

/-- Two items that were found under one key. -/
structure Alike (left right : Option FkItem) : Prop where
  left_ok : ∀ item, left = some item → item.Ok ArgName
  right_ok : ∀ item, right = some item → item.Ok ArgName
  same : left.map FkItem.value = right.map FkItem.value

/-- Both are missing, or they are equal, or they are hashes with the same fields. -/
theorem Alike.cases {left right : Option FkItem} (alike : Alike left right) :
    left = right ∨ ∃ first second, left = some (.dict first) ∧ right = some (.dict second) ∧
      fkDictGet dbDictEop first = fkDictGet dbDictEop second := by
  obtain ⟨_, _, same⟩ := alike
  cases left with
  | none =>
      cases right with
      | none => exact .inl rfl
      | some item => cases same
  | some item =>
      cases right with
      | none => cases same
      | some other =>
          have equal : item.value = other.value := Option.some.inj same
          cases item with
          | dict first =>
              cases other with
              | dict second => exact .inr ⟨first, second, rfl, rfl, Value.hash.inj equal⟩
              | _ => cases equal
          | str bytes => cases other <;> cases equal; exact .inl rfl
          | list nodes => cases other <;> cases equal; exact .inl rfl
          | sklist => cases other <;> cases equal; exact .inl rfl
          | num number => cases other <;> cases equal; exact .inl rfl

theorem dbGet_mirrors (key : Bytes) : Mirrors idx idx Alike 0 (dbGet key) (dbGet key) := by
  refine Act.Follows.read fun first second paired => ?_
  have dbs := paired.svrs.dbs idx
  rw [paired.left_idx, paired.right_idx]
  exact ⟨fun item found => (dbs.left_ok.held key item found).2,
    fun item found => (dbs.right_ok.held key item found).2, congrFun dbs.same key⟩

theorem changeDb_mirrors {change alter : FkDb → FkDb}
    (kept : ∀ left right, DbMatch left right → DbMatch (change left) (alter right)) :
    Mirrors idx idx Done 0 (changeDb change) (changeDb alter) := by
  refine Act.Follows.modify (fun first second paired => ?_) (fun _ => rfl)
  refine ⟨?_, paired.left_idx, paired.right_idx⟩
  rw [paired.left_idx, paired.right_idx]
  exact paired.svrs.setDb (kept _ _ (paired.svrs.dbs idx))

theorem emptyExpdb_mirrors :
    Mirrors leftIdx rightIdx Done 0 (changeExpdb fkDictEmpty) (changeExpdb fkDictEmpty) :=
  Act.Follows.modify (fun _ _ paired => ⟨paired.svrs.emptyExpdb, paired.left_idx, paired.right_idx⟩)
    (fun _ => rfl)

end Parts

/-! ## Costs -/

/-- No reply to a write command is longer. -/
def replyMax : Nat := fkArgHighwat + 32

theorem fkUtilDecimalDigit_le (number : Int) : fkUtilDecimalDigit (toInt32 number) ≤ 11 := by
  have low := Int.le_bmod (x := number) (m := 2 ^ 32) (by decide)
  have high := Int.bmod_lt (x := number) (m := 2 ^ 32) (by decide)
  have small : (toInt32 number).natAbs < 10 ^ 10 := by
    unfold toInt32
    omega
  have digits := Lib.Decimal.length_decimal_le (by decide) small
  unfold fkUtilDecimalDigit
  split <;> omega

section Handlers

variable {idx leftIdx rightIdx : Nat} {args : List Bytes}

theorem statusOk_mirrors :
    Mirrors leftIdx rightIdx Done 5 (fkConnAddStatusRsp fkRspOk) (fkConnAddStatusRsp fkRspOk) :=
  addRsp_mirrors _ _ _ _

theorem number_mirrors (mark : UInt8) (number : Int) :
    Mirrors leftIdx rightIdx Done 14 (addNumberRsp mark number) (addNumberRsp mark number) := by
  have digits := fkUtilDecimalDigit_le number
  exact (addRsp_mirrors _ _ _ _).weaken (by omega)

theorem typeErr_mirrors :
    Mirrors leftIdx rightIdx Done 14 (fkConnAddErrorRsp fkRspTypeErr)
      (fkConnAddErrorRsp fkRspTypeErr) :=
  (addRsp_mirrors _ _ _ _).weaken (by decide)

theorem content_mirrors {content : Bytes} (fits : content.length ≤ fkArgHighwat) :
    Mirrors leftIdx rightIdx Done (14 + (fkArgHighwat + 2)) (addBulkAndContent content)
      (addBulkAndContent content) :=
  (number_mirrors _ _).bind fun _ _ _ =>
    (addRsp_mirrors _ _ _ _).weaken (Nat.add_le_add_right fits 2)

theorem dbRemove_mirrors (key : Bytes) : Mirrors idx idx Eq 0 (dbRemove key) (dbRemove key) := by
  refine (dbGet_mirrors key).bind_free fun found other alike => ?_
  refine (changeDb_mirrors fun _ _ dbs => dbs.remove key).bind_free fun _ _ _ => Act.Follows.pure ?_
  have same := congrArg Option.isSome alike.same
  rwa [Option.isSome_map, Option.isSome_map] at same

theorem delLoop_mirrors (keys : List Bytes) (deleted : Nat) :
    Mirrors idx idx Eq 0 (delLoop keys deleted) (delLoop keys deleted) := by
  induction keys generalizing deleted with
  | nil => exact Act.Follows.pure rfl
  | cons key rest ih =>
      refine (dbRemove_mirrors key).bind_free fun removed other same => ?_
      rw [same]
      exact ih _

theorem fkCmdDel_mirrors : Mirrors idx idx Done replyMax (fkCmdDel args) (fkCmdDel args) := by
  have whole : Mirrors idx idx Done 14 (fkCmdDel args) (fkCmdDel args) := by
    refine (delLoop_mirrors _ _).bind_free fun deleted other same => ?_
    rw [same]
    exact number_mirrors _ _
  exact whole.weaken (by decide)

theorem fkCmdFlushdb_mirrors :
    Mirrors idx idx Done replyMax (fkCmdFlushdb args) (fkCmdFlushdb args) := by
  have whole : Mirrors idx idx Done 5 (fkCmdFlushdb args) (fkCmdFlushdb args) :=
    (changeDb_mirrors fun _ _ _ => DbMatch.empty).bind_free fun _ _ _ =>
      emptyExpdb_mirrors.bind_free fun _ _ _ => statusOk_mirrors
  exact whole.weaken (by decide)

/-- All databases are emptied, whichever is selected. -/
theorem fkCmdFlushall_mirrors :
    Mirrors leftIdx rightIdx Done replyMax (fkCmdFlushall args) (fkCmdFlushall args) := by
  have one : ∀ cleared, Mirrors leftIdx rightIdx Done 0 (flushOne cleared) (flushOne cleared) := by
    intro cleared
    refine Act.Follows.modify (fun first second paired => ?_) (fun _ => rfl)
    exact ⟨(paired.svrs.setDb DbMatch.empty).emptyExpdb, paired.left_idx, paired.right_idx⟩
  have counts : Mirrors leftIdx rightIdx Eq 0 (Act.read fun work => work.svr.dbcnt)
      (Act.read fun work => work.svr.dbcnt) :=
    Act.Follows.read fun _ _ paired => paired.svrs.dbcnt
  have whole : Mirrors leftIdx rightIdx Done 5 (fkCmdFlushall args) (fkCmdFlushall args) := by
    refine counts.bind_free fun dbcnt other same => ?_
    rw [same]
    exact (Act.Follows.forEach _ fun cleared _ => one cleared).bind_free fun _ _ _ =>
      statusOk_mirrors
  exact whole.weaken (by decide)

theorem fkCmdSet_mirrors (fits : ArgsFit args) :
    Mirrors idx idx Done replyMax (fkCmdSet args) (fkCmdSet args) := by
  have whole : Mirrors idx idx Done 5 (fkCmdSet args) (fkCmdSet args) := by
    refine (fkConnGetArg_mirrors args 1).bind_free fun key _ given => ?_
    obtain ⟨rfl, given⟩ := given
    refine (fkConnGetArg_mirrors args 2).bind_free fun value _ second => ?_
    obtain ⟨rfl, second⟩ := second
    exact (changeDb_mirrors fun _ _ dbs =>
      dbs.replace (fits key (List.mem_of_getElem? given)) (fits.str_ok second)).bind_free
        fun _ _ _ => statusOk_mirrors
  exact whole.weaken (by decide)

theorem fkCmdSetnx_mirrors (fits : ArgsFit args) :
    Mirrors idx idx Done replyMax (fkCmdSetnx args) (fkCmdSetnx args) := by
  have whole : Mirrors idx idx Done 14 (fkCmdSetnx args) (fkCmdSetnx args) := by
    refine (fkConnGetArg_mirrors args 1).bind_free fun key _ given => ?_
    obtain ⟨rfl, given⟩ := given
    refine (dbGet_mirrors key).bind_free fun found other alike => ?_
    have same := congrArg Option.isSome alike.same
    rw [Option.isSome_map, Option.isSome_map] at same
    rw [same]
    split
    · exact number_mirrors _ _
    · refine (fkConnGetArg_mirrors args 2).bind_free fun value _ second => ?_
      obtain ⟨rfl, second⟩ := second
      exact (changeDb_mirrors fun _ _ dbs => dbs.add (fits key (List.mem_of_getElem? given))
        (fits.str_ok second) (fits.str_ok second) rfl).bind_free fun _ _ _ => number_mirrors _ _
  exact whole.weaken (by decide)

theorem fkCmdMset_mirrors (fits : ArgsFit args) :
    Mirrors idx idx Done replyMax (fkCmdMset args) (fkCmdMset args) := by
  have each : Mirrors idx idx Done 0
      (Act.forEach (fun pair => dbReplace pair.1 (.str pair.2)) (pairs (args.drop 1)))
      (Act.forEach (fun pair => dbReplace pair.1 (.str pair.2)) (pairs (args.drop 1))) := by
    refine Act.Follows.forEach _ fun pair member => changeDb_mirrors fun _ _ dbs => ?_
    obtain ⟨key, value⟩ := mem_of_mem_pairs member
    have stored : (FkItem.str pair.2).Ok ArgName := fits _ (List.mem_of_mem_drop value)
    exact dbs.replace (fits _ (List.mem_of_mem_drop key)) stored
  unfold fkCmdMset
  split
  · exact (addRsp_mirrors _ _ _ _).weaken (by decide)
  · exact (each.bind_free fun _ _ _ => statusOk_mirrors).weaken (by decide)

theorem fkCmdGenericPush_mirrors (pos : ListPos) (fits : ArgsFit args) :
    Mirrors idx idx Done replyMax (fkCmdGenericPush pos args) (fkCmdGenericPush pos args) := by
  have added : ∀ node ∈ args.drop 2, node.length ≤ fkArgHighwat := fun node member =>
    fits node (List.mem_of_mem_drop member)
  have pushed : ∀ {nodes : List Bytes}, (FkItem.list nodes).Ok ArgName →
      (FkItem.list ((args.drop 2).foldl pos.insert nodes)).Ok ArgName := fun ok =>
    foldl_insert_fit pos _ added ok
  have whole : Mirrors idx idx Done 14 (fkCmdGenericPush pos args) (fkCmdGenericPush pos args) := by
    refine (fkConnGetArg_mirrors args 1).bind_free fun key _ given => ?_
    obtain ⟨rfl, given⟩ := given
    refine (dbGet_mirrors key).bind_free fun found other alike => ?_
    rcases alike.cases with rfl | ⟨first, second, rfl, rfl, _⟩
    · split
      · have stored := @pushed [] fun _ member => nomatch member
        exact (changeDb_mirrors fun _ _ dbs => dbs.add (fits key (List.mem_of_getElem? given))
          stored stored rfl).bind_free fun _ _ _ => number_mirrors _ _
      · have stored := pushed (alike.left_ok _ rfl)
        exact (changeDb_mirrors fun _ _ dbs => dbs.put stored stored rfl).bind_free
          fun _ _ _ => number_mirrors _ _
      · exact typeErr_mirrors
    · exact typeErr_mirrors
  exact whole.weaken (by decide)

theorem node?_mem {pos : ListPos} {nodes : List Bytes} {node : Bytes}
    (given : pos.node? nodes = some node) :
    node ∈ nodes := by
  cases pos with
  | head => exact List.mem_of_mem_head? given
  | tail => exact List.mem_of_getLast? given

theorem fkCmdGenericPop_mirrors (pos : ListPos) :
    Mirrors idx idx Done replyMax (fkCmdGenericPop pos args) (fkCmdGenericPop pos args) := by
  have small : 14 ≤ 14 + (fkArgHighwat + 2) := by decide
  have whole : Mirrors idx idx Done (14 + (fkArgHighwat + 2)) (fkCmdGenericPop pos args)
      (fkCmdGenericPop pos args) := by
    refine (fkConnGetArg_mirrors args 1).bind_free fun key _ given => ?_
    obtain ⟨rfl, given⟩ := given
    refine (dbGet_mirrors key).bind_free fun found other alike => ?_
    rcases alike.cases with rfl | ⟨first, second, rfl, rfl, _⟩
    · split
      · exact (number_mirrors _ _).weaken small
      · next nodes =>
          have held : (FkItem.list nodes).Ok ArgName := alike.left_ok _ rfl
          split
          · exact (number_mirrors _ _).weaken small
          · next node taken =>
              have stored : (FkItem.list (pos.remove nodes)).Ok ArgName := fun other member =>
                held other (remove_subset pos nodes member)
              exact (content_mirrors (held node (node?_mem taken))).bind fun _ _ _ =>
                changeDb_mirrors fun _ _ dbs => dbs.put stored stored rfl
      · exact typeErr_mirrors.weaken small
    · exact typeErr_mirrors.weaken small
  exact whole.weaken (by decide)

/-- A field that is added to two hashes with the same fields. -/
theorem hashAdd_value {first second : FkDict Bytes Bytes} {key value : Bytes}
    (left : first.Wf dbDictEop) (right : second.Wf dbDictEop)
    (same : fkDictGet dbDictEop first = fkDictGet dbDictEop second) :
    (FkItem.dict (fkDictAdd dbDictEop first key value).2).value =
      (FkItem.dict (fkDictAdd dbDictEop second key value).2).value := by
  refine congrArg Value.hash ?_
  by_cases absent : fkDictGet dbDictEop first key = none
  · have also : fkDictGet dbDictEop second key = none := by rwa [← same]
    rw [fkDictAdd_get dbDictEop_lawful left absent, fkDictAdd_get dbDictEop_lawful right also, same]
  · have also : fkDictGet dbDictEop second key ≠ none := by rwa [← same]
    rw [fkDictAdd_get_present dbDictEop_lawful left absent,
      fkDictAdd_get_present dbDictEop_lawful right also, same]

theorem fkCmdHset_mirrors (fits : ArgsFit args) :
    Mirrors idx idx Done replyMax (fkCmdHset args) (fkCmdHset args) := by
  have whole : Mirrors idx idx Done 14 (fkCmdHset args) (fkCmdHset args) := by
    refine (fkConnGetArg_mirrors args 1).bind_free fun hkey _ given => ?_
    obtain ⟨rfl, given⟩ := given
    refine (fkConnGetArg_mirrors args 2).bind_free fun key _ field => ?_
    obtain ⟨rfl, field⟩ := field
    refine (fkConnGetArg_mirrors args 3).bind_free fun value _ third => ?_
    obtain ⟨rfl, third⟩ := third
    have keyFits : ArgName key := fits key (List.mem_of_getElem? field)
    have valueFits := fits value (List.mem_of_getElem? third)
    -- the two hashes may have been built in different orders
    have put : ∀ {first second : FkDict Bytes Bytes}, (FkItem.dict first).Ok ArgName →
        (FkItem.dict second).Ok ArgName → fkDictGet dbDictEop first = fkDictGet dbDictEop second →
          Mirrors idx idx Done 0 (dbPut hkey (.dict (fkDictAdd dbDictEop first key value).2))
            (dbPut hkey (.dict (fkDictAdd dbDictEop second key value).2)) := fun left right same =>
      changeDb_mirrors fun _ _ dbs => dbs.put (hashAdd_ok left keyFits valueFits)
        (hashAdd_ok right keyFits valueFits) (hashAdd_value left.1 right.1 same)
    refine (dbGet_mirrors hkey).bind_free fun found other alike => ?_
    rcases alike.cases with rfl | ⟨first, second, rfl, rfl, same⟩
    · split
      · have stored := hashAdd_ok emptyHash_ok keyFits valueFits
        exact (changeDb_mirrors fun _ _ dbs => dbs.add (fits hkey (List.mem_of_getElem? given))
          stored stored rfl).bind_free fun _ _ _ => number_mirrors _ _
      · exact (put (alike.left_ok _ rfl) (alike.right_ok _ rfl) rfl).bind_free
          fun _ _ _ => number_mirrors _ _
      · exact typeErr_mirrors
    · exact (put (alike.left_ok _ rfl) (alike.right_ok _ rfl) same).bind_free
        fun _ _ _ => number_mirrors _ _
  exact whole.weaken (by decide)

end Handlers

end Freekick
