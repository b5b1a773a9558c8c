import Freekick.Store.Follow

/-!
# Commands that change no database

Read commands leave the databases alone as long as nothing expires.  A write command
whose reply is refused returns an error after it wrote, unless the reply comes first;
`replyAfterWrite` says which replies those are.
-/

namespace Freekick

open Lib.Call

/-! ## Reading -/

/-- The databases are those of a given server. -/
def SameDicts (svr : FkSvr) (work : Work) : Prop :=
  ∀ isexp idx, work.svr.dict isexp idx = svr.dict isexp idx

section Reading

variable {svr : FkSvr} {args : List Bytes} {key : Bytes}

theorem rsp_sameDicts (text : Bytes) (len : Nat) : Act.Keeps (SameDicts svr) (addRsp text len) :=
  addRsp_keeps (fun _ _ same => same) text len

theorem content_sameDicts (content : Bytes) :
    Act.Keeps (SameDicts svr) (addBulkAndContent content) :=
  (rsp_sameDicts _ _).bind fun _ => rsp_sameDicts _ _

/-- Without a time limit no key is removed. -/
theorem getAlive_sameDicts (empty : ∀ idx, svr.expdb idx = fkDictCreate) :
    Act.Keeps (SameDicts svr) (getAlive key) := by
  have expired : Act.Keeps (SameDicts svr) (fkHandleExpiredKey key) := by
    refine @Act.Keeps.read_bind _ _ _ (SameDicts svr) _ _ (fun exp => exp = none) ?_ ?_
    · intro work same
      have expdb : work.svr.expdb work.out.dbIdx = fkDictCreate :=
        (same true work.out.dbIdx).trans (empty work.out.dbIdx)
      rw [expdb, fkDictCreate, fkDictGet_init dbDictEop_lawful]
    · rintro exp rfl
      exact Act.Keeps.pure _
  refine expired.bind fun gone => ?_
  split
  · exact Act.Keeps.pure _
  · exact Act.Keeps.read _

theorem fkCmdMget_sameDicts (empty : ∀ idx, svr.expdb idx = fkDictCreate) :
    Act.Keeps (SameDicts svr) (fkCmdMget args) := by
  refine (rsp_sameDicts _ _).bind fun _ => Act.Keeps.forEach _ fun key _ => ?_
  refine (getAlive_sameDicts empty).bind fun value => ?_
  split
  · exact content_sameDicts _
  · exact rsp_sameDicts _ _

theorem fkCmdGet_sameDicts (empty : ∀ idx, svr.expdb idx = fkDictCreate) :
    Act.Keeps (SameDicts svr) (fkCmdGet args) := by
  refine fkConnGetArg_keeps fun key _ => (getAlive_sameDicts empty).bind fun value => ?_
  split
  · exact rsp_sameDicts _ _
  · exact content_sameDicts _
  · exact rsp_sameDicts _ _

theorem fkCmdExists_sameDicts : Act.Keeps (SameDicts svr) (fkCmdExists args) :=
  fkConnGetArg_keeps fun _ _ => (Act.Keeps.read _).bind fun _ => rsp_sameDicts _ _

theorem fkCmdLlen_sameDicts : Act.Keeps (SameDicts svr) (fkCmdLlen args) := by
  refine fkConnGetArg_keeps fun key _ => (Act.Keeps.read _).bind fun value => ?_
  split <;> exact rsp_sameDicts _ _

theorem fkCmdHget_sameDicts : Act.Keeps (SameDicts svr) (fkCmdHget args) := by
  refine fkConnGetArg_keeps fun hkey _ => fkConnGetArg_keeps fun key _ =>
    (Act.Keeps.read _).bind fun item => ?_
  split
  · exact rsp_sameDicts _ _
  · split
    · exact rsp_sameDicts _ _
    · exact content_sameDicts _
  · exact rsp_sameDicts _ _

theorem fkCmdSave_sameDicts (args : List Bytes) : Act.Keeps (SameDicts svr) (fkCmdSave args) := by
  refine (Act.Keeps.read _).bind fun savePid => ?_
  have saved : Act.Keeps (SameDicts svr)
      (Act.modify fun work => { work with
        svr := (fkKdbSave (junkRt work.svr.junk) work.svr).2 }) := by
    refine Act.Keeps.modify fun work same => ?_
    obtain ⟨dbFile, saved⟩ := fkKdbSave_svr (junkRt work.svr.junk) work.svr
    rw [saved]
    exact same
  split
  · exact saved.bind fun _ => rsp_sameDicts _ _
  · exact (Act.Keeps.pure _).bind fun _ => rsp_sameDicts _ _

/-- A command of the table's type `FK_PROTO_READ`. -/
theorem handler_sameDicts {fkCmdEval : Handler} {pto : FkProto} {rest : List Bytes}
    (member : pto ∈ protos fkCmdEval) (reads : pto.type = .read)
    (empty : ∀ idx, svr.expdb idx = fkDictCreate) :
    Act.Keeps (SameDicts svr) (pto.handler (pto.name :: rest)) := by
  cases pto, member using protos_cases with
  | mget => exact fkCmdMget_sameDicts empty
  | get => exact fkCmdGet_sameDicts empty
  | existing => exact fkCmdExists_sameDicts
  | hget => exact fkCmdHget_sameDicts
  | llen => exact fkCmdLlen_sameDicts
  | save => exact fkCmdSave_sameDicts rest
  | _ => cases reads

end Reading

/-! ## Refused replies -/

/-- The check of the `fk_conn_add_*_rsp` family finds room for `len` bytes. -/
def accepts (wbuf : FkBuf) (len : Nat) : Bool :=
  match wbuf.fkBufAlloc len with
  | some grown => len ≤ grown.fkBufFreeLen
  | none => true

/-- A reply fails only when it is refused, and then it changes no database. -/
theorem addRsp_err {text : Bytes} {len : Nat} {work after : Work}
    (failed : addRsp text len work = .err after) :
    accepts work.out.wbuf len = false ∧ after.svr = work.svr := by
  unfold addRsp at failed
  unfold accepts
  split at failed
  · cases failed
  · next wbuf allocated =>
      split at failed
      · next refused =>
          cases failed
          rw [allocated]
          exact ⟨decide_eq_false (Nat.not_le.mpr refused), rfl⟩
      · cases failed

/-- How many keys `fk_cmd_del` removes. -/
def deletable : FkDb → List Bytes → Nat
  | _, [] => 0
  | db, key :: rest =>
      (if (fkDictGet dbDictEop db key).isSome then 1 else 0) +
        deletable (fkDictRemove dbDictEop db key).2 rest

/-- The length of the reply `:n`. -/
def intRspLen (number : Int) : Nat := fkUtilDecimalDigit (toInt32 number) + 3

/-- The length of the reply that a command queues after it wrote to a database. -/
def replyAfterWrite (db : FkDb) (name : Bytes) (rest : List Bytes) : Option Nat :=
  let held := fkDictGet dbDictEop db (rest.headD [])
  if name ∈ [ascii "SET", ascii "FLUSHDB", ascii "FLUSHALL"] then some 5
  else if name = ascii "MSET" then if rest.length % 2 = 0 then some 5 else none
  else if name = ascii "SETNX" then if held.isSome then none else some 4
  else if name = ascii "DEL" then some (intRspLen (deletable db rest))
  else if name = ascii "HSET" then
    match held with
    | none | some (.dict _) => some 4
    | _ => none
  else if name ∈ [ascii "LPUSH", ascii "RPUSH"] then
    match held with
    | none | some (.list _) => some (intRspLen (rest.length - 1 : Nat))
    | _ => none
  else none

section Errors

variable {svr : FkSvr} {out : FkConnOut} {after : Work} {name : Bytes} {rest : List Bytes}

/-- The reply after a write is accepted. -/
def WriteAccepted (svr : FkSvr) (out : FkConnOut) (name : Bytes) (rest : List Bytes) : Prop :=
  ∀ len ∈ replyAfterWrite (svr.db out.dbIdx) name rest, accepts out.wbuf len = true

instance : Decidable (WriteAccepted svr out name rest) :=
  inferInstanceAs (Decidable (∀ len ∈ replyAfterWrite (svr.db out.dbIdx) name rest,
    accepts out.wbuf len = true))

/-- A reply that is accepted does not fail. -/
theorem addRsp_accepted {text : Bytes} {len : Nat} {changed : FkSvr}
    (accepted : accepts out.wbuf len = true)
    (failed : addRsp text len ⟨changed, out⟩ = .err after) : False := by
  have refused := (addRsp_err failed).1
  rw [accepted] at refused
  cases refused

/-- Calls that cannot fail and leave the connection alone. -/
theorem forEach_modify {I : Type} {body : I → Act Work Unit} (items : List I)
    (each : ∀ item svr, ∃ changed, body item ⟨svr, out⟩ = .ok () ⟨changed, out⟩) (svr : FkSvr) :
    ∃ changed, Act.forEach body items ⟨svr, out⟩ = .ok () ⟨changed, out⟩ := by
  induction items generalizing svr with
  | nil => exact ⟨svr, rfl⟩
  | cons item rest ih =>
      obtain ⟨middle, first⟩ := each item svr
      obtain ⟨changed, later⟩ := ih middle
      exact ⟨changed, (Act.bind_ok first).trans later⟩

theorem delLoop_ok (keys : List Bytes) (deleted : Nat) (svr : FkSvr) :
    ∃ changed, delLoop keys deleted ⟨svr, out⟩ =
      .ok (deleted + deletable (svr.db out.dbIdx) keys) ⟨changed, out⟩ := by
  induction keys generalizing deleted svr with
  | nil => exact ⟨svr, rfl⟩
  | cons key rest ih =>
      have removed : dbRemove key ⟨svr, out⟩ = .ok
          (fkDictGet dbDictEop (svr.db out.dbIdx) key).isSome
          ⟨svr.setDb out.dbIdx (fkDictRemove dbDictEop (svr.db out.dbIdx) key).2, out⟩ := rfl
      obtain ⟨changed, later⟩ := ih
        (if (fkDictGet dbDictEop (svr.db out.dbIdx) key).isSome then deleted + 1 else deleted)
        (svr.setDb out.dbIdx (fkDictRemove dbDictEop (svr.db out.dbIdx) key).2)
      refine ⟨changed, (Act.bind_ok removed).trans (later.trans ?_)⟩
      have total :
          (if (fkDictGet dbDictEop (svr.db out.dbIdx) key).isSome then deleted + 1 else deleted) +
          deletable ((svr.setDb out.dbIdx (fkDictRemove dbDictEop (svr.db out.dbIdx) key).2).db
            out.dbIdx) rest =
          deleted + deletable (svr.db out.dbIdx) (key :: rest) := by
        simp only [deletable, FkSvr.setDb, Function.update_self]
        split <;> omega
      rw [total]

theorem getArg_bind {B : Type} {args : List Bytes} {index : Nat} {arg : Bytes}
    {next : Bytes → Act Work B} {work : Work} (given : args[index]? = some arg) :
    (fkConnGetArg args index >>= next) work = next arg work := by
  unfold fkConnGetArg
  rw [given]
  rfl

theorem fkCmdDel_err (accepted : WriteAccepted svr out (ascii "DEL") rest)
    (failed : fkCmdDel (ascii "DEL" :: rest) ⟨svr, out⟩ = .err after) : after.svr = svr := by
  obtain ⟨changed, looped⟩ := @delLoop_ok out rest 0 svr
  have replied : fkCmdDel (ascii "DEL" :: rest) ⟨svr, out⟩ =
      fkConnAddIntRsp ((0 + deletable (svr.db out.dbIdx) rest : Nat) : Int) ⟨changed, out⟩ :=
        Act.bind_ok looped
  rw [replied, Nat.zero_add] at failed
  exact (addRsp_accepted (accepted _ rfl) failed).elim

theorem fkCmdFlushall_err (accepted : WriteAccepted svr out (ascii "FLUSHALL") rest)
    (failed : fkCmdFlushall (ascii "FLUSHALL" :: rest) ⟨svr, out⟩ = .err after) :
    after.svr = svr := by
  obtain ⟨changed, looped⟩ := @forEach_modify out Nat flushOne (List.range svr.dbcnt)
    (fun _ _ => ⟨_, rfl⟩) svr
  have replied : fkCmdFlushall (ascii "FLUSHALL" :: rest) ⟨svr, out⟩ =
      fkConnAddStatusRsp fkRspOk ⟨changed, out⟩ := Act.bind_ok looped
  rw [replied] at failed
  exact (addRsp_accepted (accepted _ rfl) failed).elim

theorem fkCmdMset_err (accepted : WriteAccepted svr out (ascii "MSET") rest)
    (failed : fkCmdMset (ascii "MSET" :: rest) ⟨svr, out⟩ = .err after) : after.svr = svr := by
  have count : (ascii "MSET" :: rest).length - 1 = rest.length := rfl
  unfold fkCmdMset at failed
  rw [count] at failed
  split at failed
  · exact (addRsp_err failed).2
  · next even =>
      obtain ⟨changed, looped⟩ := @forEach_modify out _ (fun pair => dbReplace pair.1 (.str pair.2))
        (pairs rest) (fun _ _ => ⟨_, rfl⟩) svr
      have replied := failed.symm.trans (Act.bind_ok looped)
      have known : replyAfterWrite (svr.db out.dbIdx) (ascii "MSET") rest = some 5 :=
        if_pos (Classical.not_not.mp even)
      exact (addRsp_accepted (accepted 5 known) replied.symm).elim

theorem fkCmdSetnx_err {key value : Bytes}
    (accepted : WriteAccepted svr out (ascii "SETNX") [key, value])
    (failed : fkCmdSetnx [ascii "SETNX", key, value] ⟨svr, out⟩ = .err after) :
    after.svr = svr := by
  change (if (fkDictGet dbDictEop (svr.db out.dbIdx) key).isSome then fkConnAddIntRsp 0 else _ :
    Act Work Unit) ⟨svr, out⟩ = _ at failed
  split at failed
  · exact (addRsp_err failed).2
  · next absent =>
      have known : replyAfterWrite (svr.db out.dbIdx) (ascii "SETNX") [key, value] = some 4 :=
        if_neg absent
      exact (addRsp_accepted (accepted 4 known) failed).elim

theorem fkCmdHset_err {hkey key value : Bytes}
    (accepted : WriteAccepted svr out (ascii "HSET") [hkey, key, value])
    (failed : fkCmdHset [ascii "HSET", hkey, key, value] ⟨svr, out⟩ = .err after) :
    after.svr = svr := by
  have known : replyAfterWrite (svr.db out.dbIdx) (ascii "HSET") [hkey, key, value] =
      match fkDictGet dbDictEop (svr.db out.dbIdx) hkey with
      | none | some (.dict _) => some 4
      | _ => none := rfl
  unfold fkCmdHset at failed
  rw [getArg_bind rfl, getArg_bind rfl, getArg_bind rfl, dbGet, Act.read_bind] at failed
  unfold WriteAccepted at accepted
  rw [known] at accepted
  cases held : fkDictGet dbDictEop (svr.db out.dbIdx) hkey with
  | none =>
      rw [held] at accepted failed
      exact (addRsp_accepted (accepted 4 rfl) failed).elim
  | some item =>
      rw [held] at accepted failed
      cases item with
      | dict fields => exact (addRsp_accepted (accepted 4 rfl) failed).elim
      | _ => exact (addRsp_err failed).2

/-- An integer reply after a change. -/
theorem intRsp_accepted {change : FkDb → FkDb} {number : Int}
    (accepted : accepts out.wbuf (intRspLen number) = true)
    (failed : (changeDb change >>= fun _ => fkConnAddIntRsp number) ⟨svr, out⟩ = .err after) :
    after.svr = svr := by
  rcases Act.bind_eq_err failed with refused | ⟨value, between, changed, replied⟩
  · cases refused
  · cases changed
    exact (addRsp_accepted accepted replied).elim

theorem fkCmdGenericPush_err {pos : ListPos} {name key : Bytes} {nodes : List Bytes}
    (push : name ∈ [ascii "LPUSH", ascii "RPUSH"])
    (accepted : WriteAccepted svr out name (key :: nodes))
    (failed : fkCmdGenericPush pos (name :: key :: nodes) ⟨svr, out⟩ = .err after) :
    after.svr = svr := by
  have added : (name :: key :: nodes).length - 2 = (key :: nodes).length - 1 := by
    rw [List.length_cons]
    omega
  have known : replyAfterWrite (svr.db out.dbIdx) name (key :: nodes) =
      match fkDictGet dbDictEop (svr.db out.dbIdx) key with
      | none | some (.list _) => some (intRspLen ((key :: nodes).length - 1 : Nat))
      | _ => none := by
    rcases List.mem_cons.mp push with rfl | second
    · rfl
    · rw [List.mem_singleton.mp second]
      rfl
  unfold fkCmdGenericPush at failed
  rw [getArg_bind rfl, dbGet, Act.read_bind, added] at failed
  unfold WriteAccepted at accepted
  rw [known] at accepted
  cases held : fkDictGet dbDictEop (svr.db out.dbIdx) key with
  | none =>
      rw [held] at accepted failed
      exact intRsp_accepted (accepted _ rfl) failed
  | some item =>
      rw [held] at accepted failed
      cases item with
      | list nodes => exact intRsp_accepted (accepted _ rfl) failed
      | _ => exact (addRsp_err failed).2

/-- The two replies of a bulk come before any write. -/
theorem addBulkAndContent_err {content : Bytes} {work after : Work}
    (failed : addBulkAndContent content work = .err after) : after.svr = work.svr := by
  have kept : Act.Keeps (fun other : Work => other.svr = work.svr) (addBulkAndContent content) :=
    (addRsp_keeps (fun _ _ same => same) _ _).bind fun _ => addRsp_keeps (fun _ _ same => same) _ _
  exact (kept work rfl).2 after failed

/-- A pop that fails has not come to the removal. -/
theorem popped_err {node key : Bytes} {item : FkItem} {work after : Work}
    (failed : (addBulkAndContent node >>= fun _ => dbPut key item) work = .err after) :
    after.svr = work.svr := by
  rcases Act.bind_eq_err failed with refused | ⟨value, between, _, put⟩
  · exact addBulkAndContent_err refused
  · cases put

theorem fkCmdGenericPop_err {pos : ListPos} {name key : Bytes}
    (failed : fkCmdGenericPop pos [name, key] ⟨svr, out⟩ = .err after) : after.svr = svr := by
  unfold fkCmdGenericPop at failed
  rw [getArg_bind rfl, dbGet, Act.read_bind] at failed
  cases held : fkDictGet dbDictEop (svr.db out.dbIdx) key with
  | none =>
      rw [held] at failed
      exact (addRsp_err failed).2
  | some item =>
      rw [held] at failed
      cases item with
      | list nodes =>
          dsimp only at failed
          cases taken : pos.node? nodes with
          | none =>
              rw [taken] at failed
              exact (addRsp_err failed).2
          | some node =>
              rw [taken] at failed
              exact popped_err failed
      | _ => exact (addRsp_err failed).2

theorem fkCmdSelect_err {name text : Bytes}
    (failed : fkCmdSelect [name, text] ⟨svr, out⟩ = .err after) :
    after.svr = svr := by
  change (if atoi text < 0 ∨ (svr.dbcnt : Int) ≤ atoi text then fkConnAddErrorRsp fkRspErr else _ :
    Act Work Unit) ⟨svr, out⟩ = _ at failed
  split at failed
  · exact (addRsp_err failed).2
  · exact (addRsp_err failed).2

end Errors

/-! ## The number of arguments -/

section Counts

variable {pto : FkProto} {count : Nat}

/-- The arguments after the name of a command with a fixed number of them. -/
theorem accepts_rest (accepted : pto.accepts (count + 1) = true) (fixed : 0 ≤ pto.argCnt) :
    count = pto.argCnt.toNat - 1 := by
  unfold FkProto.accepts at accepted
  simp only [Bool.and_eq_true, Bool.not_eq_true', Bool.and_eq_false_iff,
    decide_eq_false_iff_not] at accepted
  omega

theorem accepts_least (accepted : pto.accepts count = true) (least : pto.argCnt < 0) :
    -pto.argCnt ≤ count := by
  unfold FkProto.accepts at accepted
  simp only [Bool.and_eq_true, Bool.not_eq_true', Bool.and_eq_false_iff,
    decide_eq_false_iff_not] at accepted
  omega

end Counts

/-- A write command that fails has changed no database, if the reply after its write is
accepted. -/
theorem handler_err {fkCmdEval : Handler} {pto : FkProto} {rest : List Bytes} {svr : FkSvr}
    {out : FkConnOut} {after : Work} (member : pto ∈ protos fkCmdEval) (writes : pto.type = .write)
    (counted : pto.accepts (rest.length + 1) = true) (notSetex : pto.name ≠ ascii "SETEX")
    (notZadd : pto.name ≠ ascii "ZADD") (accepted : WriteAccepted svr out pto.name rest)
    (failed : pto.handler (pto.name :: rest) ⟨svr, out⟩ = .err after) : after.svr = svr := by
  cases pto, member using protos_cases with
  | set =>
      obtain ⟨key, value, rfl⟩ := List.length_eq_two.mp (accepts_rest counted (by decide))
      exact (addRsp_accepted (accepted 5 rfl) failed).elim
  | setnx =>
      obtain ⟨key, value, rfl⟩ := List.length_eq_two.mp (accepts_rest counted (by decide))
      exact fkCmdSetnx_err accepted failed
  | setex => exact (notSetex rfl).elim
  | mset => exact fkCmdMset_err accepted failed
  | del => exact fkCmdDel_err accepted failed
  | flushdb => exact (addRsp_accepted (accepted 5 rfl) failed).elim
  | flushall => exact fkCmdFlushall_err accepted failed
  | hset =>
      obtain ⟨hkey, key, value, rfl⟩ := List.length_eq_three.mp (accepts_rest counted (by decide))
      exact fkCmdHset_err accepted failed
  | lpush =>
      cases rest with
      | nil => exact absurd (accepts_least counted (by decide)) (by decide)
      | cons key nodes => exact fkCmdGenericPush_err (by decide) accepted failed
  | rpush =>
      cases rest with
      | nil => exact absurd (accepts_least counted (by decide)) (by decide)
      | cons key nodes => exact fkCmdGenericPush_err (by decide) accepted failed
  | lpop =>
      obtain ⟨key, rfl⟩ := List.length_eq_one_iff.mp (accepts_rest counted (by decide))
      exact fkCmdGenericPop_err failed
  | rpop =>
      obtain ⟨key, rfl⟩ := List.length_eq_one_iff.mp (accepts_rest counted (by decide))
      exact fkCmdGenericPop_err failed
  | select =>
      obtain ⟨text, rfl⟩ := List.length_eq_one_iff.mp (accepts_rest counted (by decide))
      exact fkCmdSelect_err failed
  | zadd => exact (notZadd rfl).elim
  | _ => cases writes

end Freekick
