import Freekick.Kdb.RoundTrip
import Freekick.Store.Proto

/-!
# What the commands keep

Every dictionary stays well formed and holds only items that the handlers can make,
under keys that satisfy a given condition.  The condition is a parameter: with the
length of an argument it holds in every state, and with more it holds as long as the
names in the commands satisfy it.
-/

namespace Freekick

open Lib.Call Lib.KeyedMap

/-! ## Items and dictionaries -/

/-- An item that a handler can store. -/
def FkItem.Ok (good : Bytes → Prop) : FkItem → Prop
  | .str bytes => bytes.length ≤ fkArgHighwat
  | .list nodes => ∀ node ∈ nodes, node.length ≤ fkArgHighwat
  | .dict fields => fields.Wf dbDictEop ∧
      ∀ key value, fkDictGet dbDictEop fields key = some value → good key ∧
        value.length ≤ fkArgHighwat
  | .sklist => False
  | .num number => -2 ^ 63 ≤ number ∧ number < 2 ^ 63

structure DbOk (good : Bytes → Prop) (dct : FkDb) : Prop where
  wf : dct.Wf dbDictEop
  held : ∀ key item, fkDictGet dbDictEop dct key = some item → good key ∧ item.Ok good

def SvrOk (good : Bytes → Prop) (svr : FkSvr) : Prop := ∀ isexp idx, DbOk good (svr.dict isexp idx)

/-- The length of an argument. -/
def ArgName (name : Bytes) : Prop := name.length ≤ fkArgHighwat

variable {good : Bytes → Prop} {dct : FkDb} {key : Bytes} {item : FkItem}

theorem fkDictCreate_ok : DbOk good fkDictCreate where
  wf := fkDictInit_wf
  held := by
    intro key item found
    rw [fkDictCreate, fkDictGet_init dbDictEop_lawful] at found
    cases found

/-- A pair that is found after an update is the new one or was found before. -/
theorem found_update {V : Type} {found : Bytes → Option V} {value result : V} {wanted : Bytes}
    (lookup : update dbDictEop.Same found key value wanted = some result) :
    (wanted = key ∧ result = value) ∨ found wanted = some result := by
  unfold update at lookup
  split at lookup
  · next same => exact .inl ⟨(dbDictEop_same.mp same).symm, (Option.some.inj lookup).symm⟩
  · exact .inr lookup

namespace DbOk

theorem update_ok {changed : FkDb} (ok : DbOk good dct) (wf : changed.Wf dbDictEop)
    (named : good key) (stored : item.Ok good)
    (lookup : fkDictGet dbDictEop changed = update dbDictEop.Same
      (fkDictGet dbDictEop dct) key item) :
    DbOk good changed where
  wf := wf
  held := by
    intro wanted result found
    rw [lookup] at found
    rcases found_update found with ⟨rfl, rfl⟩ | before
    · exact ⟨named, stored⟩
    · exact ok.held wanted result before

theorem add (ok : DbOk good dct) (named : good key) (stored : item.Ok good) :
    DbOk good (fkDictAdd dbDictEop dct key item).2 := by
  have wf := fkDictAdd_wf dbDictEop_lawful ok.wf key item
  by_cases absent : fkDictGet dbDictEop dct key = none
  · exact ok.update_ok wf named stored (fkDictAdd_get dbDictEop_lawful ok.wf absent item)
  · refine ⟨wf, ?_⟩
    rw [fkDictAdd_get_present dbDictEop_lawful ok.wf absent item]
    exact ok.held

theorem replace (ok : DbOk good dct) (named : good key) (stored : item.Ok good) :
    DbOk good (fkDictReplace dbDictEop dct key item).2 := by
  obtain ⟨_, wf, lookup⟩ := fkDictReplace_spec dbDictEop_lawful ok.wf key item
  exact ok.update_ok wf named stored lookup

theorem remove (ok : DbOk good dct) (key : Bytes) :
    DbOk good (fkDictRemove dbDictEop dct key).2 := by
  obtain ⟨_, wf, lookup⟩ := fkDictRemove_spec dbDictEop_lawful ok.wf key
  refine ⟨wf, ?_⟩
  intro wanted result found
  rw [lookup, erase] at found
  split at found
  · cases found
  · exact ok.held wanted result found

/-- An item that is not there stays away. -/
theorem put (ok : DbOk good dct) (stored : item.Ok good) :
    DbOk good (fkDictPut dbDictEop dct key item) := by
  cases lookup : fkDictGet dbDictEop dct key with
  | none =>
      rw [fkDictPut_absent dbDictEop_lawful ok.wf lookup item]
      exact ok
  | some old =>
      have present : fkDictGet dbDictEop dct key ≠ none := by
        rw [lookup]
        exact Option.some_ne_none old
      obtain ⟨wf, changed⟩ := fkDictPut_spec dbDictEop_lawful ok.wf present item
      exact ok.update_ok wf (ok.held key old lookup).1 stored changed

end DbOk

namespace SvrOk

variable {svr : FkSvr}

theorem setDict (ok : SvrOk good svr) {isexp : Bool} {idx : Nat} {changed : FkDb}
    (changedOk : DbOk good changed) : SvrOk good (svr.setDict isexp idx changed) := by
  intro other wanted
  by_cases same : (other, wanted) = (isexp, idx)
  · obtain ⟨rfl, rfl⟩ := Prod.mk.inj same
    rw [FkSvr.dict_setDict_same]
    exact changedOk
  · rw [FkSvr.dict_setDict_other svr changed same]
    exact ok other wanted

theorem setDb (ok : SvrOk good svr) {idx : Nat} {changed : FkDb} (changedOk : DbOk good changed) :
    SvrOk good (svr.setDb idx changed) :=
  @setDict good svr ok false idx changed changedOk

theorem setExpdb (ok : SvrOk good svr) {idx : Nat} {changed : FkDb}
    (changedOk : DbOk good changed) :
    SvrOk good (svr.setExpdb idx changed) :=
  @setDict good svr ok true idx changed changedOk

end SvrOk

/-! ## The parts of a handler -/

/-- What no handler changes: the settings, the log and the type of the connection. -/
structure Fixed where
  dbcnt : Nat
  blogOn : Bool
  blog : List (List Bytes)
  type : FkConnType

def Work.fixed (work : Work) : Fixed :=
  ⟨work.svr.dbcnt, work.svr.blogOn, work.svr.blog, work.out.type⟩

structure WorkOk (good : Bytes → Prop) (fixed : Fixed) (work : Work) : Prop where
  svr : SvrOk good work.svr
  same : work.fixed = fixed

variable {fixed : Fixed}

section Parts

variable {holds : Work → Prop} {B : Type}

/-- A reply changes nothing but the write buffer. -/
theorem addRsp_keeps
    (framed : ∀ work wbuf, holds work → holds { work with out := { work.out with wbuf := wbuf } })
    (text : Bytes) (len : Nat) : Act.Keeps holds (addRsp text len) := by
  intro work start
  unfold addRsp
  cases allocated : work.out.wbuf.fkBufAlloc len with
  | none =>
      refine ⟨?_, ?_⟩
      · intro value after ended
        cases ended
      · intro after ended
        cases ended
  | some wbuf =>
      dsimp only
      split
      · refine ⟨?_, ?_⟩
        · intro value after ended
          cases ended
        · intro after ended
          cases ended
          exact framed work wbuf start
      · refine ⟨?_, ?_⟩
        · intro value after ended
          cases ended
          exact framed work _ start
        · intro after ended
          cases ended

theorem fkConnGetArg_keeps {args : List Bytes} {index : Nat} {next : Bytes → Act Work B}
    (later : ∀ arg, args[index]? = some arg → Act.Keeps holds (next arg)) :
    Act.Keeps holds (fkConnGetArg args index >>= next) := by
  unfold fkConnGetArg
  split
  · next arg given => exact fun work start => later arg given work start
  · exact (Act.Keeps.fault : Act.Keeps holds (Act.fault : Act Work B))

end Parts

theorem rsp_keeps (text : Bytes) (len : Nat) : Act.Keeps (WorkOk good fixed) (addRsp text len) :=
  addRsp_keeps (fun _ _ ok => ⟨ok.svr, ok.same⟩) text len

theorem addBulkAndContent_keeps (content : Bytes) :
    Act.Keeps (WorkOk good fixed) (addBulkAndContent content) :=
  (rsp_keeps _ _).bind fun _ => rsp_keeps _ _

theorem changeDb_keeps {change : FkDb → FkDb} (kept : ∀ db, DbOk good db → DbOk good (change db)) :
    Act.Keeps (WorkOk good fixed) (changeDb change) :=
  Act.Keeps.modify fun work ok => ⟨ok.svr.setDb (kept _ (ok.svr false work.out.dbIdx)), ok.same⟩

theorem changeExpdb_keeps {change : FkDb → FkDb}
    (kept : ∀ db, DbOk good db → DbOk good (change db)) :
    Act.Keeps (WorkOk good fixed) (changeExpdb change) :=
  Act.Keeps.modify fun work ok => ⟨ok.svr.setExpdb (kept _ (ok.svr true work.out.dbIdx)), ok.same⟩

theorem dbGet_keeps {B : Type} {next : Option FkItem → Act Work B}
    (later : ∀ value, (∀ item, value = some item → item.Ok good) →
      Act.Keeps (WorkOk good fixed) (next value)) :
    Act.Keeps (WorkOk good fixed) (dbGet key >>= next) :=
  Act.Keeps.read_bind (fun work ok item found =>
    ((ok.svr false work.out.dbIdx).held key item found).2) later

theorem dbAdd_keeps (named : good key) (stored : item.Ok good) :
    Act.Keeps (WorkOk good fixed) (dbAdd key item) :=
  changeDb_keeps fun _ ok => ok.add named stored

theorem dbReplace_keeps (named : good key) (stored : item.Ok good) :
    Act.Keeps (WorkOk good fixed) (dbReplace key item) :=
  changeDb_keeps fun _ ok => ok.replace named stored

theorem dbPut_keeps (stored : item.Ok good) : Act.Keeps (WorkOk good fixed) (dbPut key item) :=
  changeDb_keeps fun _ ok => ok.put stored

theorem nowMillis_keeps : Act.Keeps (WorkOk good fixed) nowMillis := by
  intro work ok
  refine ⟨?_, ?_⟩
  · intro value after ended
    cases ended
    exact ⟨ok.svr, ok.same⟩
  · intro after ended
    cases ended

/-! ## The handlers -/

section Handlers

variable {args : List Bytes}

theorem delLoop_keeps (keys : List Bytes) (deleted : Nat) :
    Act.Keeps (WorkOk good fixed) (delLoop keys deleted) := by
  induction keys generalizing deleted with
  | nil => exact Act.Keeps.pure deleted
  | cons key rest ih =>
      have removed : Act.Keeps (WorkOk good fixed) (dbRemove key) :=
        dbGet_keeps fun _ _ => (changeDb_keeps fun _ ok => ok.remove key).bind fun _ =>
          Act.Keeps.pure _
      exact removed.bind fun _ => ih _

theorem fkCmdDel_keeps : Act.Keeps (WorkOk good fixed) (fkCmdDel args) :=
  (delLoop_keeps _ _).bind fun _ => rsp_keeps _ _

theorem fkCmdFlushdb_keeps (args : List Bytes) :
    Act.Keeps (WorkOk good fixed) (fkCmdFlushdb args) :=
  (changeDb_keeps fun _ _ => fkDictCreate_ok).bind fun _ =>
    (changeExpdb_keeps fun _ _ => fkDictCreate_ok).bind fun _ => rsp_keeps _ _

theorem fkCmdFlushall_keeps (args : List Bytes) :
    Act.Keeps (WorkOk good fixed) (fkCmdFlushall args) := by
  refine (Act.Keeps.read _).bind fun dbcnt => ?_
  have emptied : Act.Keeps (WorkOk good fixed) (Act.forEach flushOne (List.range dbcnt)) :=
    Act.Keeps.forEach _ fun idx _ =>
      Act.Keeps.modify fun work ok =>
        ⟨(ok.svr.setDb fkDictCreate_ok).setExpdb fkDictCreate_ok, ok.same⟩
  exact emptied.bind fun _ => rsp_keeps _ _

theorem fkCmdExists_keeps : Act.Keeps (WorkOk good fixed) (fkCmdExists args) :=
  fkConnGetArg_keeps fun _ _ => dbGet_keeps fun _ _ => rsp_keeps _ _

/-- A save changes only the file. -/
theorem fkKdbSave_svr (rt : FkRt) (svr : FkSvr) :
    ∃ dbFile, (fkKdbSave rt svr).2 = { svr with dbFile := dbFile } := by
  unfold fkKdbSave
  split
  · exact ⟨_, rfl⟩
  · exact ⟨svr.dbFile, rfl⟩

theorem fkCmdSave_keeps (args : List Bytes) : Act.Keeps (WorkOk good fixed) (fkCmdSave args) := by
  refine (Act.Keeps.read _).bind fun savePid => ?_
  have saved : Act.Keeps (WorkOk good fixed)
      (Act.modify fun work => { work with
        svr := (fkKdbSave (junkRt work.svr.junk) work.svr).2 }) := by
    refine Act.Keeps.modify fun work ok => ?_
    obtain ⟨dbFile, saved⟩ := fkKdbSave_svr (junkRt work.svr.junk) work.svr
    rw [saved]
    exact ⟨ok.svr, ok.same⟩
  split
  · exact saved.bind fun _ => rsp_keeps _ _
  · exact (Act.Keeps.pure _).bind fun _ => rsp_keeps _ _

theorem fkCmdSelect_keeps : Act.Keeps (WorkOk good fixed) (fkCmdSelect args) := by
  refine fkConnGetArg_keeps fun text _ => (Act.Keeps.read _).bind fun dbcnt => ?_
  have moved : Act.Keeps (WorkOk good fixed)
      (Act.modify fun work => { work with out := { work.out with dbIdx := (atoi text).toNat } }) :=
    Act.Keeps.modify fun _ ok => ⟨ok.svr, ok.same⟩
  dsimp only
  split
  · exact rsp_keeps _ _
  · exact moved.bind fun _ => rsp_keeps _ _

/-- The arguments are of a length that the parser admits. -/
def ArgsFit (args : List Bytes) : Prop := ∀ arg ∈ args, arg.length ≤ fkArgHighwat

theorem ArgsFit.str_ok (fits : ArgsFit args) {index : Nat} {value : Bytes}
    (given : args[index]? = some value) :
    (FkItem.str value).Ok good := fits value (List.mem_of_getElem? given)

theorem fkCmdSet_keeps (fits : ArgsFit args) (named : ∀ key, args[1]? = some key → good key) :
    Act.Keeps (WorkOk good fixed) (fkCmdSet args) :=
  fkConnGetArg_keeps fun key given => fkConnGetArg_keeps fun _ second =>
    (dbReplace_keeps (named key given) (fits.str_ok second)).bind fun _ => rsp_keeps _ _

theorem fkCmdSetnx_keeps (fits : ArgsFit args) (named : ∀ key, args[1]? = some key → good key) :
    Act.Keeps (WorkOk good fixed) (fkCmdSetnx args) := by
  refine fkConnGetArg_keeps fun key given => dbGet_keeps fun value _ => ?_
  split
  · exact rsp_keeps _ _
  · exact fkConnGetArg_keeps fun _ second =>
      (dbAdd_keeps (named key given) (fits.str_ok second)).bind fun _ => rsp_keeps _ _

theorem toInt64_ok (number : Int) : (FkItem.num (toInt64 number)).Ok good := by
  have low := Int.le_bmod (x := number) (m := 2 ^ 64) (by decide)
  have high := Int.bmod_lt (x := number) (m := 2 ^ 64) (by decide)
  change -2 ^ 63 ≤ Int.bmod number (2 ^ 64) ∧ Int.bmod number (2 ^ 64) < 2 ^ 63
  omega

theorem fkCmdSetex_keeps (fits : ArgsFit args) (named : ∀ key, args[1]? = some key → good key) :
    Act.Keeps (WorkOk good fixed) (fkCmdSetex args) :=
  fkConnGetArg_keeps fun key given => fkConnGetArg_keeps fun _ _ =>
    fkConnGetArg_keeps fun _ third =>
    nowMillis_keeps.bind fun _ =>
      (dbReplace_keeps (named key given) (fits.str_ok third)).bind fun _ =>
      (changeExpdb_keeps fun _ ok => ok.replace (named key given) (toInt64_ok _)).bind fun _ =>
        rsp_keeps _ _

theorem mem_of_mem_pairs {pair : Bytes × Bytes} (member : pair ∈ pairs args) :
    pair.1 ∈ args ∧ pair.2 ∈ args := by
  fun_induction pairs args with
  | case1 key value rest ih =>
      rcases List.mem_cons.mp member with rfl | later
      · exact ⟨List.mem_cons_self .., List.mem_cons_of_mem _ (List.mem_cons_self ..)⟩
      · obtain ⟨first, second⟩ := ih later
        exact ⟨List.mem_cons_of_mem _ (List.mem_cons_of_mem _ first),
          List.mem_cons_of_mem _ (List.mem_cons_of_mem _ second)⟩
  | case2 => cases member

theorem fkCmdMset_keeps (fits : ArgsFit args) (named : ∀ pair ∈ pairs (args.drop 1), good pair.1) :
    Act.Keeps (WorkOk good fixed) (fkCmdMset args) := by
  have each : Act.Keeps (WorkOk good fixed)
      (Act.forEach (fun pair => dbReplace pair.1 (.str pair.2)) (pairs (args.drop 1))) := by
    refine Act.Keeps.forEach _ fun pair member => ?_
    have stored : (FkItem.str pair.2).Ok good :=
      fits _ (List.mem_of_mem_drop (mem_of_mem_pairs member).2)
    exact dbReplace_keeps (named pair member) stored
  unfold fkCmdMset
  split
  · exact rsp_keeps _ _
  · exact each.bind fun _ => rsp_keeps _ _

theorem getAlive_keeps : Act.Keeps (WorkOk good fixed) (getAlive key) := by
  have expired : Act.Keeps (WorkOk good fixed) (fkHandleExpiredKey key) := by
    refine (Act.Keeps.read _).bind fun exp => ?_
    split
    · exact Act.Keeps.pure _
    · refine nowMillis_keeps.bind fun now => ?_
      split
      · exact (changeDb_keeps fun _ ok => ok.remove key).bind fun _ =>
          (changeExpdb_keeps fun _ ok => ok.remove key).bind fun _ => Act.Keeps.pure _
      · exact Act.Keeps.pure _
    · exact Act.Keeps.fault
  refine expired.bind fun gone => ?_
  split
  · exact Act.Keeps.pure _
  · exact Act.Keeps.read _

theorem fkCmdMget_keeps : Act.Keeps (WorkOk good fixed) (fkCmdMget args) := by
  refine (rsp_keeps _ _).bind fun _ => Act.Keeps.forEach _ fun key _ => ?_
  refine getAlive_keeps.bind fun value => ?_
  split
  · exact addBulkAndContent_keeps _
  · exact rsp_keeps _ _

theorem fkCmdGet_keeps : Act.Keeps (WorkOk good fixed) (fkCmdGet args) := by
  refine fkConnGetArg_keeps fun key _ => getAlive_keeps.bind fun value => ?_
  split
  · exact rsp_keeps _ _
  · exact addBulkAndContent_keeps _
  · exact rsp_keeps _ _

theorem foldl_insert_fit (pos : ListPos) (added : List Bytes) {nodes : List Bytes}
    (first : ∀ node ∈ added, node.length ≤ fkArgHighwat)
    (second : ∀ node ∈ nodes, node.length ≤ fkArgHighwat) :
    ∀ node ∈ added.foldl pos.insert nodes, node.length ≤ fkArgHighwat := by
  induction added generalizing nodes with
  | nil => exact second
  | cons arg rest ih =>
      have here := first arg (List.mem_cons_self ..)
      refine ih (fun node member => first node (List.mem_cons_of_mem _ member)) ?_
      intro node member
      cases pos with
      | head =>
          rcases List.mem_cons.mp member with rfl | earlier
          · exact here
          · exact second node earlier
      | tail =>
          rcases List.mem_append.mp member with earlier | last
          · exact second node earlier
          · rw [List.mem_singleton.mp last]
            exact here

theorem fkCmdGenericPush_keeps (pos : ListPos) (fits : ArgsFit args)
    (named : ∀ key, args[1]? = some key → good key) :
    Act.Keeps (WorkOk good fixed) (fkCmdGenericPush pos args) := by
  have added : ∀ node ∈ args.drop 2, node.length ≤ fkArgHighwat := fun node member =>
    fits node (List.mem_of_mem_drop member)
  refine fkConnGetArg_keeps fun key given => dbGet_keeps fun value found => ?_
  split
  · have stored : (FkItem.list ((args.drop 2).foldl pos.insert [])).Ok good :=
      foldl_insert_fit pos _ added fun _ member => nomatch member
    exact (dbAdd_keeps (named key given) stored).bind fun _ => rsp_keeps _ _
  · next nodes =>
      have stored : (FkItem.list ((args.drop 2).foldl pos.insert nodes)).Ok good :=
        foldl_insert_fit pos _ added (found _ rfl)
      exact (dbPut_keeps stored).bind fun _ => rsp_keeps _ _
  · exact rsp_keeps _ _

theorem remove_subset (pos : ListPos) (nodes : List Bytes) : pos.remove nodes ⊆ nodes := by
  cases pos with
  | head => exact List.tail_subset nodes
  | tail => exact List.dropLast_subset nodes

theorem fkCmdGenericPop_keeps (pos : ListPos) :
    Act.Keeps (WorkOk good fixed) (fkCmdGenericPop pos args) := by
  refine fkConnGetArg_keeps fun key _ => dbGet_keeps fun value found => ?_
  split
  · exact rsp_keeps _ _
  · next nodes =>
      have stored : (FkItem.list (pos.remove nodes)).Ok good := fun node member =>
        found _ rfl node (remove_subset pos nodes member)
      split
      · exact rsp_keeps _ _
      · exact (addBulkAndContent_keeps _).bind fun _ => dbPut_keeps stored
  · exact rsp_keeps _ _

theorem fkCmdLlen_keeps : Act.Keeps (WorkOk good fixed) (fkCmdLlen args) := by
  refine fkConnGetArg_keeps fun key _ => dbGet_keeps fun value _ => ?_
  split <;> exact rsp_keeps _ _

/-- A field that is added to a hash. -/
theorem hashAdd_ok {fields : FkDict Bytes Bytes} {value : Bytes} (ok : (FkItem.dict fields).Ok good)
    (named : good key) (fits : value.length ≤ fkArgHighwat) :
    (FkItem.dict (fkDictAdd dbDictEop fields key value).2).Ok good := by
  obtain ⟨wf, held⟩ := ok
  refine ⟨fkDictAdd_wf dbDictEop_lawful wf key value, ?_⟩
  intro wanted result found
  by_cases absent : fkDictGet dbDictEop fields key = none
  · rw [fkDictAdd_get dbDictEop_lawful wf absent value] at found
    rcases found_update found with ⟨rfl, rfl⟩ | before
    · exact ⟨named, fits⟩
    · exact held wanted result before
  · rw [fkDictAdd_get_present dbDictEop_lawful wf absent value] at found
    exact held wanted result found

theorem emptyHash_ok : (FkItem.dict fkDictCreate).Ok good := by
  refine ⟨fkDictInit_wf, ?_⟩
  intro key value found
  rw [fkDictCreate, fkDictGet_init dbDictEop_lawful] at found
  cases found

theorem fkCmdHset_keeps (fits : ArgsFit args) (named : ∀ key, args[1]? = some key → good key)
    (field : ∀ key, args[2]? = some key → good key) :
    Act.Keeps (WorkOk good fixed) (fkCmdHset args) := by
  refine fkConnGetArg_keeps fun hkey given => fkConnGetArg_keeps fun key second =>
    fkConnGetArg_keeps fun value third => dbGet_keeps fun item found => ?_
  have valueFits := fits value (List.mem_of_getElem? third)
  split
  · exact (dbAdd_keeps (named hkey given)
      (hashAdd_ok emptyHash_ok (field key second) valueFits)).bind fun _ => rsp_keeps _ _
  · exact (dbPut_keeps (hashAdd_ok (found _ rfl) (field key second) valueFits)).bind fun _ =>
      rsp_keeps _ _
  · exact rsp_keeps _ _

theorem fkCmdHget_keeps : Act.Keeps (WorkOk good fixed) (fkCmdHget args) := by
  refine fkConnGetArg_keeps fun hkey _ => fkConnGetArg_keeps fun key _ =>
    dbGet_keeps fun item _ => ?_
  split
  · exact rsp_keeps _ _
  · split
    · exact rsp_keeps _ _
    · exact addBulkAndContent_keeps _
  · exact rsp_keeps _ _

theorem fkCmdZadd_keeps : Act.Keeps (WorkOk good fixed) (fkCmdZadd args) := by
  refine fkConnGetArg_keeps fun key _ => dbGet_keeps fun item _ => ?_
  split
  · exact Act.Keeps.fault
  · split <;> exact rsp_keeps _ _

end Handlers

/-! ## Every command -/

/-- The keys and hash fields that a command can bring into a database. -/
def storedNames (name : Bytes) (rest : List Bytes) : List Bytes :=
  if name ∈ [ascii "SET", ascii "SETNX", ascii "SETEX", ascii "LPUSH", ascii "RPUSH"] then
    rest.take 1
  else if name = ascii "MSET" then (pairs rest).map Prod.fst
  else if name = ascii "HSET" then rest.take 2
  else []

theorem mem_of_mem_storedNames {name stored : Bytes} {rest : List Bytes}
    (member : stored ∈ storedNames name rest) : stored ∈ rest := by
  unfold storedNames at member
  split at member
  · exact List.mem_of_mem_take member
  · split at member
    · obtain ⟨pair, inPairs, rfl⟩ := List.mem_map.mp member
      exact (mem_of_mem_pairs inPairs).1
    · split at member
      · exact List.mem_of_mem_take member
      · cases member

theorem getElem?_mem_take {rest : List Bytes} {key name : Bytes} {index count : Nat}
    (inside : index < count) (given : (name :: rest)[index + 1]? = some key) :
    key ∈ rest.take count := by
  rw [List.getElem?_cons_succ] at given
  refine List.mem_of_getElem? (i := index) ?_
  rw [List.getElem?_take_of_lt inside]
  exact given

theorem handler_keeps {fkCmdEval : Handler} {pto : FkProto} {rest : List Bytes}
    (member : pto ∈ protos fkCmdEval) (notEval : pto.name ≠ ascii "EVAL")
    (fits : ArgsFit (pto.name :: rest)) (named : ∀ name ∈ storedNames pto.name rest, good name) :
    Act.Keeps (WorkOk good fixed) (pto.handler (pto.name :: rest)) := by
  have first : storedNames pto.name rest = rest.take 1 →
      ∀ key, (pto.name :: rest)[1]? = some key → good key := by
    intro names key given
    refine named key ?_
    rw [names]
    exact getElem?_mem_take (by decide) given
  cases pto, member using protos_cases with
  | set => exact fkCmdSet_keeps fits (first (if_pos (by decide)))
  | setnx => exact fkCmdSetnx_keeps fits (first (if_pos (by decide)))
  | setex => exact fkCmdSetex_keeps fits (first (if_pos (by decide)))
  | mset =>
      refine fkCmdMset_keeps fits fun pair member => named pair.1 ?_
      have names : storedNames (ascii "MSET") rest = (pairs rest).map Prod.fst := by
        rw [storedNames, if_neg (by decide), if_pos rfl]
      rw [names]
      exact List.mem_map.mpr ⟨pair, member, rfl⟩
  | mget => exact fkCmdMget_keeps
  | get => exact fkCmdGet_keeps
  | del => exact fkCmdDel_keeps
  | flushdb => exact fkCmdFlushdb_keeps rest
  | existing => exact fkCmdExists_keeps
  | flushall => exact fkCmdFlushall_keeps rest
  | hset =>
      have names : storedNames (ascii "HSET") rest = rest.take 2 := by
        rw [storedNames, if_neg (by decide), if_neg (by decide), if_pos rfl]
      rw [names] at named
      exact fkCmdHset_keeps fits (fun key given => named key (getElem?_mem_take (by decide) given))
        (fun key given => named key (getElem?_mem_take (by decide) given))
  | hget => exact fkCmdHget_keeps
  | lpush => exact fkCmdGenericPush_keeps .head fits (first (if_pos (by decide)))
  | rpush => exact fkCmdGenericPush_keeps .tail fits (first (if_pos (by decide)))
  | lpop => exact fkCmdGenericPop_keeps .head
  | rpop => exact fkCmdGenericPop_keeps .tail
  | llen => exact fkCmdLlen_keeps
  | save => exact fkCmdSave_keeps rest
  | select => exact fkCmdSelect_keeps
  | eval => exact (notEval rfl).elim
  | zadd => exact fkCmdZadd_keeps

/-- The databases stay as they should be when each part of a call keeps them so. -/
theorem keeps_svr {A : Type} {act : Act Work A}
    (kept : ∀ fixed, Act.Keeps (WorkOk good fixed) act) :
    Act.Keeps (fun work => SvrOk good work.svr) act := by
  intro work start
  have both := kept work.fixed work ⟨start, rfl⟩
  exact ⟨fun value after ended => (both.1 value after ended).svr,
    fun after ended => (both.2 after ended).svr⟩

theorem blogAppend_keeps (pto : FkProto) (args : List Bytes) :
    Act.Keeps (fun work => SvrOk good work.svr) (blogAppend pto args) := by
  refine Act.Keeps.modify fun work ok => ?_
  split
  · exact ok
  · exact ok

theorem length_fkStr2upper (text : Bytes) : (fkStr2upper text).length = text.length :=
  List.length_map _

theorem ArgsFit.upper {first : Bytes} {rest : List Bytes} (fits : ArgsFit (first :: rest)) :
    ArgsFit (fkStr2upper first :: rest) := by
  intro arg member
  rcases List.mem_cons.mp member with rfl | later
  · rw [length_fkStr2upper]
    exact fits first (List.mem_cons_self ..)
  · exact fits arg (List.mem_cons_of_mem _ later)

/-- A command with short arguments keeps the databases as they should be, provided that the
names it stores are good. -/
theorem procArgs_keeps {fkCmdEval : Handler} {first : Bytes} {rest : List Bytes}
    (notEval : fkStr2upper first ≠ ascii "EVAL") (fits : ArgsFit (first :: rest))
    (named : ∀ name ∈ storedNames (fkStr2upper first) rest, good name) :
    Act.Keeps (fun work => SvrOk good work.svr) (procArgs fkCmdEval (first :: rest)) := by
  have upperFits := fits.upper
  rcases procArgs_cases fkCmdEval first rest with ⟨text, len, rejects⟩ |
      ⟨pto, member, known, _, runs⟩
  · rw [rejects]
    exact keeps_svr fun _ => rsp_keeps text len
  · rw [← known] at notEval upperFits named
    rw [runs]
    exact (keeps_svr fun _ => handler_keeps member notEval upperFits named).bind fun _ =>
      blogAppend_keeps _ _

end Freekick
