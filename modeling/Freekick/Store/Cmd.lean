import Freekick.Kdb.Dump
import Freekick.Store.Rsp

/-!
# Command handlers: `fk_svr_db.c`, `fk_svr_str.c`, `fk_svr_list.c`, `fk_svr_hash.c`, `fk_svr_zset.c`

A handler gets the arguments of its command, the name first.  A list or hash that a
dictionary holds is changed in place; here its element gets the changed value.
-/

namespace Freekick

open Lib.Call

/-- `fk_conn_get_arg`; the number of arguments was checked before. -/
def fkConnGetArg (args : List Bytes) (index : Nat) : Act Work Bytes :=
  match args[index]? with
  | some arg => pure arg
  | none => Act.fault

/-- `fk_dict_get` on the database of the connection. -/
def dbGet (key : Bytes) : Act Work (Option FkItem) :=
  Act.read fun work => fkDictGet dbDictEop (work.svr.db work.out.dbIdx) key

/-- A change of the database of the connection. -/
def changeDb (change : FkDb → FkDb) : Act Work Unit :=
  Act.modify fun work =>
    { work with svr := work.svr.setDb work.out.dbIdx (change (work.svr.db work.out.dbIdx)) }

def changeExpdb (change : FkDb → FkDb) : Act Work Unit :=
  Act.modify fun work =>
    { work with svr := work.svr.setExpdb work.out.dbIdx (change (work.svr.expdb work.out.dbIdx)) }

def dbAdd (key : Bytes) (value : FkItem) : Act Work Unit :=
  changeDb fun db => (fkDictAdd dbDictEop db key value).2

def dbReplace (key : Bytes) (value : FkItem) : Act Work Unit :=
  changeDb fun db => (fkDictReplace dbDictEop db key value).2

/-- The item under a key changes in place. -/
def dbPut (key : Bytes) (value : FkItem) : Act Work Unit :=
  changeDb fun db => fkDictPut dbDictEop db key value

/-! ## `fk_svr_db.c` -/

/-- `fk_dict_remove` and whether it removed the key. -/
def dbRemove (key : Bytes) : Act Work Bool := do
  let found ← dbGet key
  changeDb fun db => (fkDictRemove dbDictEop db key).2
  pure found.isSome

/-- The loop of `fk_cmd_del`. -/
def delLoop : List Bytes → Nat → Act Work Nat
  | [], deleted => pure deleted
  | key :: rest, deleted => do
      let removed ← dbRemove key
      delLoop rest (if removed then deleted + 1 else deleted)

def fkCmdDel : Handler := fun args => do
  let deleted ← delLoop (args.drop 1) 0
  fkConnAddIntRsp deleted

def fkCmdFlushdb : Handler := fun _ => do
  changeDb fkDictEmpty
  changeExpdb fkDictEmpty
  fkConnAddStatusRsp fkRspOk

/-- One round of the loop of `fk_cmd_flushall`. -/
def flushOne (idx : Nat) : Act Work Unit :=
  Act.modify fun work =>
    let emptied := work.svr.setDb idx (fkDictEmpty (work.svr.db idx))
    { work with svr := emptied.setExpdb idx (fkDictEmpty (emptied.expdb idx)) }

def fkCmdFlushall : Handler := fun _ => do
  let dbcnt ← Act.read fun work => work.svr.dbcnt
  Act.forEach flushOne (List.range dbcnt)
  fkConnAddStatusRsp fkRspOk

def fkCmdExists : Handler := fun args => do
  let key ← fkConnGetArg args 1
  let value ← dbGet key
  fkConnAddIntRsp (if value.isSome then 1 else 0)

/-- What the uninitialised `rt` of `fk_kdb_dump` holds, as far as it is compared. -/
def junkRt (junk : Nat → UInt8) : FkRt := if junk 0 = 255 then .err else .ok

/-- Both branches after the save answer alike. -/
def fkCmdSave : Handler := fun _ => do
  let savePid ← Act.read fun work => work.svr.savePid
  if savePid = -1 then
    Act.modify fun work => { work with svr := (fkKdbSave (junkRt work.svr.junk) work.svr).2 }
  fkConnAddStatusRsp fkRspOk

def fkCmdSelect : Handler := fun args => do
  let text ← fkConnGetArg args 1
  let dbcnt ← Act.read fun work => work.svr.dbcnt
  let dbIdx := atoi text
  if dbIdx < 0 ∨ (dbcnt : Int) ≤ dbIdx then fkConnAddErrorRsp fkRspErr
  else do
    Act.modify fun work => { work with out := { work.out with dbIdx := dbIdx.toNat } }
    fkConnAddStatusRsp fkRspOk

/-! ## `fk_svr_str.c` -/

def fkCmdSet : Handler := fun args => do
  let key ← fkConnGetArg args 1
  let value ← fkConnGetArg args 2
  dbReplace key (.str value)
  fkConnAddStatusRsp fkRspOk

def fkCmdSetnx : Handler := fun args => do
  let key ← fkConnGetArg args 1
  let value ← dbGet key
  if value.isSome then fkConnAddIntRsp 0
  else do
    let value ← fkConnGetArg args 2
    dbAdd key (.str value)
    fkConnAddIntRsp 1

/-- `fk_util_get_time` and `fk_util_tv2millis`. -/
def nowMillis : Act Work Int := fun work =>
  .ok (work.svr.clock work.svr.readings)
    { work with svr := { work.svr with readings := work.svr.readings + 1 } }

/-- `long long` arithmetic that wraps around. -/
def toInt64 (number : Int) : Int := Int.bmod number (2 ^ 64)

def fkCmdSetex : Handler := fun args => do
  let key ← fkConnGetArg args 1
  let exp ← fkConnGetArg args 2
  let value ← fkConnGetArg args 3
  let now ← nowMillis
  let expMillis := toInt64 (strtol exp * 1000 + now)
  dbReplace key (.str value)
  changeExpdb fun expdb => (fkDictReplace dbDictEop expdb key (.num expMillis)).2
  fkConnAddStatusRsp fkRspOk

/-- Arguments two by two. -/
def pairs : List Bytes → List (Bytes × Bytes)
  | key :: value :: rest => (key, value) :: pairs rest
  | _ => []

def fkCmdMset : Handler := fun args => do
  if (args.length - 1) % 2 ≠ 0 then fkConnAddErrorRsp fkRspArgcErr
  else do
    Act.forEach (fun pair => dbReplace pair.1 (.str pair.2)) (pairs (args.drop 1))
    fkConnAddStatusRsp fkRspOk

/-- Remove the key when its time is over.  The value in the expiry dictionary is read as
a number without a look at its type. -/
def fkHandleExpiredKey (key : Bytes) : Act Work Bool := do
  let exp ← Act.read fun work => fkDictGet dbDictEop (work.svr.expdb work.out.dbIdx) key
  match exp with
  | none => pure false
  | some (.num expMillis) => do
      let now ← nowMillis
      if expMillis < now then do
        changeDb fun db => (fkDictRemove dbDictEop db key).2
        changeExpdb fun expdb => (fkDictRemove dbDictEop expdb key).2
        pure true
      else pure false
  | some _ => Act.fault

/-- The value of a key that is not expired. -/
def getAlive (key : Bytes) : Act Work (Option FkItem) := do
  let expired ← fkHandleExpiredKey key
  if expired then pure none else dbGet key

/-- One round of the loop of `fk_cmd_mget`. -/
def mgetOne (key : Bytes) : Act Work Unit := do
  match ← getAlive key with
  | some (.str bytes) => addBulkAndContent bytes
  | _ => fkConnAddBulkRsp fkRspNil

def fkCmdMget : Handler := fun args => do
  fkConnAddMbulkRsp (args.length - 1 : Nat)
  Act.forEach mgetOne (args.drop 1)

def fkCmdGet : Handler := fun args => do
  let key ← fkConnGetArg args 1
  match ← getAlive key with
  | none => fkConnAddBulkRsp fkRspNil
  | some (.str bytes) => addBulkAndContent bytes
  | some _ => fkConnAddErrorRsp fkRspTypeErr

/-! ## `fk_svr_list.c` -/

/-- The two ends of a list. -/
inductive ListPos where
  | head
  | tail
  deriving DecidableEq, Repr

/-- `fk_list_insert_head` or `fk_list_insert_tail`. -/
def ListPos.insert : ListPos → List Bytes → Bytes → List Bytes
  | .head, nodes, node => node :: nodes
  | .tail, nodes, node => nodes ++ [node]

/-- `fk_list_head` or `fk_list_tail`. -/
def ListPos.node? : ListPos → List Bytes → Option Bytes
  | .head, nodes => nodes.head?
  | .tail, nodes => nodes.getLast?

/-- `fk_list_remove_anyone` of the node at that end. -/
def ListPos.remove : ListPos → List Bytes → List Bytes
  | .head, nodes => nodes.tail
  | .tail, nodes => nodes.dropLast

def fkCmdGenericPush (pos : ListPos) : Handler := fun args => do
  let key ← fkConnGetArg args 1
  match ← dbGet key with
  | none => do
      dbAdd key (.list ((args.drop 2).foldl pos.insert []))
      fkConnAddIntRsp (args.length - 2 : Nat)
  | some (.list nodes) => do
      dbPut key (.list ((args.drop 2).foldl pos.insert nodes))
      fkConnAddIntRsp (args.length - 2 : Nat)
  | some _ => fkConnAddErrorRsp fkRspTypeErr

/-- The node is removed after the reply. -/
def fkCmdGenericPop (pos : ListPos) : Handler := fun args => do
  let key ← fkConnGetArg args 1
  match ← dbGet key with
  | none => fkConnAddBulkRsp fkRspNil
  | some (.list nodes) =>
      match pos.node? nodes with
      | none => fkConnAddBulkRsp fkRspNil
      | some node => do
          addBulkAndContent node
          dbPut key (.list (pos.remove nodes))
  | some _ => fkConnAddErrorRsp fkRspTypeErr

def fkCmdLpush : Handler := fkCmdGenericPush .head
def fkCmdRpush : Handler := fkCmdGenericPush .tail
def fkCmdLpop : Handler := fkCmdGenericPop .head
def fkCmdRpop : Handler := fkCmdGenericPop .tail

def fkCmdLlen : Handler := fun args => do
  let key ← fkConnGetArg args 1
  match ← dbGet key with
  | none => fkConnAddIntRsp 0
  | some (.list nodes) => fkConnAddIntRsp nodes.length
  | some _ => fkConnAddErrorRsp fkRspTypeErr

/-! ## `fk_svr_hash.c` -/

/-- A field that is there keeps its value, and the answer is 1 all the same. -/
def fkCmdHset : Handler := fun args => do
  let hkey ← fkConnGetArg args 1
  let key ← fkConnGetArg args 2
  let value ← fkConnGetArg args 3
  match ← dbGet hkey with
  | none => do
      dbAdd hkey (.dict (fkDictAdd dbDictEop fkDictCreate key value).2)
      fkConnAddIntRsp 1
  | some (.dict fields) => do
      dbPut hkey (.dict (fkDictAdd dbDictEop fields key value).2)
      fkConnAddIntRsp 1
  | some _ => fkConnAddErrorRsp fkRspTypeErr

def fkCmdHget : Handler := fun args => do
  let hkey ← fkConnGetArg args 1
  let key ← fkConnGetArg args 2
  match ← dbGet hkey with
  | none => fkConnAddBulkRsp fkRspNil
  | some (.dict fields) =>
      match fkDictGet dbDictEop fields key with
      | none => fkConnAddBulkRsp fkRspNil
      | some bytes => addBulkAndContent bytes
  | some _ => fkConnAddErrorRsp fkRspTypeErr

/-! ## `fk_svr_zset.c` -/

/-- `fk_skiplist_create` copies the null data of its first node, so a new key crashes.
Nothing is inserted into a list that exists, whatever its type. -/
def fkCmdZadd : Handler := fun args => do
  let key ← fkConnGetArg args 1
  match ← dbGet key with
  | none => Act.fault
  | some _ =>
      if (args.length - 2) % 2 ≠ 0 then fkConnAddErrorRsp fkRspArgcErr
      else fkConnAddIntRsp ((args.length - 2) / 2 : Nat)

end Freekick
