import Freekick.Refs.Svr
import Freekick.Store.Proto

/-!
# Commands on items

The handlers of `fk_svr_db.c`, `fk_svr_str.c`, `fk_svr_list.c`, `fk_svr_hash.c` and `fk_svr_zset.c`
once more, with the items that they take, share and give up.
-/

namespace Freekick.Refs

open Lib Lib.Call

/-! ## `fk_svr_db.c` -/

/-- The loop of `fk_cmd_del`. -/
def delLoop (place : Bool × Nat) : List Nat → Nat → Act FkSvr Nat
  | [], deleted => pure deleted
  | key :: rest, deleted => do
      let removed ← dbRemove place key
      delLoop place rest (if removed then deleted + 1 else deleted)

def fkCmdDel : Handler := fun client args => do
  let db ← dbOf client
  let deleted ← delLoop db (args.drop 1) 0
  reply client (fkConnAddIntRsp deleted)

/-- Both dictionaries of an index. -/
def emptyBoth (idx : Nat) : Act FkSvr Unit := do
  dbEmpty (false, idx)
  dbEmpty (true, idx)

def fkCmdFlushdb : Handler := fun client _ => do
  let db ← dbOf client
  emptyBoth db.2
  reply client (fkConnAddStatusRsp fkRspOk)

def fkCmdFlushall : Handler := fun client _ => do
  let dbcnt ← Act.read FkSvr.dbcnt
  Act.forEach emptyBoth (List.range dbcnt)
  reply client (fkConnAddStatusRsp fkRspOk)

def fkCmdExists : Handler := fun client args => do
  let key ← getArg args 1
  let db ← dbOf client
  let value ← dbGet db key
  reply client (fkConnAddIntRsp (if value.isSome then 1 else 0))

/-- What `fk_kdb_dump` looks at for an element.  It stops at a write that fails; here it never
does. -/
def dumpElt (elt : Nat × Nat) : Act FkSvr Unit := do
  let item ← itemAt elt.2
  match item.type with
  | .str => do
      lookStr elt.1
      lookStr elt.2
  | .list => do
      lookStr elt.1
      let nodes ← rawList elt.2
      Act.forEach lookStr nodes
  | .dict => do
      lookStr elt.1
      let fields ← rawDict elt.2
      Act.forEach (fun selt => lookStr selt.1 >>= fun _ => lookStr selt.2) (fkDictVisits fields)
  | .num => do
      lookStr elt.1
      let _ ← rawNum elt.2
  | _ => pure ()

def fkKdbDump (place : Bool × Nat) : Act FkSvr Unit := do
  let dct ← dictAt place
  Act.forEach dumpElt (fkDictVisits dct)

def fkKdbSave : Act FkSvr Unit := do
  let dbcnt ← Act.read FkSvr.dbcnt
  Act.forEach (fun idx => fkKdbDump (false, idx) >>= fun _ => fkKdbDump (true, idx))
    (List.range dbcnt)

def fkCmdSave : Handler := fun client _ => do
  let savePid ← Act.read FkSvr.savePid
  Act.onlyIf (savePid = -1) fkKdbSave
  reply client (fkConnAddStatusRsp fkRspOk)

def fkCmdSelect : Handler := fun client args => do
  let arg ← getArg args 1
  let text ← rawStr arg
  let dbcnt ← Act.read FkSvr.dbcnt
  let dbIdx := atoi text
  if dbIdx < 0 ∨ (dbcnt : Int) ≤ dbIdx then reply client (fkConnAddErrorRsp fkRspErr)
  else do
    let conn ← connOf client
    setConn client { conn with out := { conn.out with dbIdx := dbIdx.toNat } }
    reply client (fkConnAddStatusRsp fkRspOk)

/-! ## `fk_svr_str.c` -/

def fkCmdSet : Handler := fun client args => do
  let key ← getArg args 1
  let value ← getArg args 2
  let db ← dbOf client
  dbReplace db key value
  reply client (fkConnAddStatusRsp fkRspOk)

def fkCmdSetnx : Handler := fun client args => do
  let key ← getArg args 1
  let db ← dbOf client
  let value ← dbGet db key
  if value.isSome then reply client (fkConnAddIntRsp 0)
  else do
    let value ← getArg args 2
    let _ ← dbAdd db key value
    reply client (fkConnAddIntRsp 1)

/-- `fk_util_get_time` and `fk_util_tv2millis`. -/
def nowMillis : Act FkSvr Int := fun svr => .ok (svr.clock svr.readings)
  { svr with readings := svr.readings + 1 }

def fkCmdSetex : Handler := fun client args => do
  let key ← getArg args 1
  let exp ← getArg args 2
  let value ← getArg args 3
  let text ← rawStr exp
  let now ← nowMillis
  let expItem ← onItems (FkItems.fkItemCreate .num (.num (toInt64 (strtol text * 1000 + now))))
  let db ← dbOf client
  dbReplace db key value
  dbReplace (true, db.2) key expItem
  reply client (fkConnAddStatusRsp fkRspOk)

/-- Arguments two by two. -/
def pairs : List Nat → List (Nat × Nat)
  | key :: value :: rest => (key, value) :: pairs rest
  | _ => []

def fkCmdMset : Handler := fun client args => do
  if (args.length - 1) % 2 ≠ 0 then reply client (fkConnAddErrorRsp fkRspArgcErr)
  else do
    let db ← dbOf client
    Act.forEach (fun pair => dbReplace db pair.1 pair.2) (pairs (args.drop 1))
    reply client (fkConnAddStatusRsp fkRspOk)

def fkHandleExpiredKey (idx key : Nat) : Act FkSvr Bool := do
  let exp ← dbGet (true, idx) key
  match exp with
  | none => pure false
  | some exp => do
      let expMillis ← rawNum exp
      let now ← nowMillis
      if expMillis < now then do
        let _ ← dbRemove (false, idx) key
        let _ ← dbRemove (true, idx) key
        pure true
      else pure false

/-- The value of a key that is not expired. -/
def getAlive (db : Bool × Nat) (key : Nat) : Act FkSvr (Option Nat) := do
  let expired ← fkHandleExpiredKey db.2 key
  if expired then pure none else dbGet db key

/-- The content of a string item. -/
def replyStr (client id : Nat) : Act FkSvr Unit := do
  let bytes ← rawStr id
  reply client (addBulkAndContent bytes)

/-- One round of the loop of `fk_cmd_mget`. -/
def mgetOne (client key : Nat) : Act FkSvr Unit := do
  let db ← dbOf client
  let value ← getAlive db key
  match value with
  | none => reply client (fkConnAddBulkRsp fkRspNil)
  | some id => do
      let item ← itemAt id
      if item.type ≠ .str then reply client (fkConnAddBulkRsp fkRspNil) else replyStr client id

def fkCmdMget : Handler := fun client args => do
  reply client (fkConnAddMbulkRsp (args.length - 1 : Nat))
  Act.forEach (mgetOne client) (args.drop 1)

/-- What most commands do with the value of a key: nothing there, a value of another type, or
one of the type that they work on. -/
def ofType (client : Nat) (type : FkItemType) (value : Option Nat) (absent : Act FkSvr Unit)
    (work : Nat → Act FkSvr Unit) :
    Act FkSvr Unit :=
  match value with
  | none => absent
  | some id => do
      let item ← itemAt id
      if item.type ≠ type then reply client (fkConnAddErrorRsp fkRspTypeErr) else work id

def fkCmdGet : Handler := fun client args => do
  let key ← getArg args 1
  let db ← dbOf client
  let value ← getAlive db key
  ofType client .str value (reply client (fkConnAddBulkRsp fkRspNil)) (replyStr client)

/-! ## `fk_svr_list.c` -/

/-- `fk_list_insert_head` or `fk_list_insert_tail`. -/
def insertNode : ListPos → List Nat → Nat → List Nat
  | .head, nodes, node => node :: nodes
  | .tail, nodes, node => nodes ++ [node]

/-- `fk_list_head` or `fk_list_tail`. -/
def endNode : ListPos → List Nat → Option Nat
  | .head, nodes => nodes.head?
  | .tail, nodes => nodes.getLast?

/-- The list without that node. -/
def cutNode : ListPos → List Nat → List Nat
  | .head, nodes => nodes.tail
  | .tail, nodes => nodes.dropLast

/-- The loop of `fk_cmd_generic_push`; every node takes a reference. -/
def pushAll (pos : ListPos) (nodes more : List Nat) : Act FkSvr (List Nat) := do
  onItems (Act.forEach FkItems.fkItemIncRef more)
  pure (more.foldl (insertNode pos) nodes)

def fkCmdGenericPush (pos : ListPos) : Handler := fun client args => do
  let key ← getArg args 1
  let db ← dbOf client
  let value ← dbGet db key
  ofType client .list value
    (do
      let nodes ← pushAll pos [] (args.drop 2)
      let item ← onItems (FkItems.fkItemCreate .list (.list nodes))
      let _ ← dbAdd db key item
      reply client (fkConnAddIntRsp (args.length - 2 : Nat)))
    fun item => do
      let nodes ← rawList item
      let pushed ← pushAll pos nodes (args.drop 2)
      onItems (FkItems.setEntity item (.list pushed))
      reply client (fkConnAddIntRsp (args.length - 2 : Nat))

/-- The node is removed after the reply. -/
def fkCmdGenericPop (pos : ListPos) : Handler := fun client args => do
  let key ← getArg args 1
  let db ← dbOf client
  let value ← dbGet db key
  ofType client .list value (reply client (fkConnAddBulkRsp fkRspNil)) fun item => do
    let nodes ← rawList item
    match endNode pos nodes with
    | none => reply client (fkConnAddBulkRsp fkRspNil)
    | some node => do
        replyStr client node
        onItems (FkItems.setEntity item (.list (cutNode pos nodes)))
        onItems (FkItems.fkItemDecRef node)

def fkCmdLpush : Handler := fkCmdGenericPush .head
def fkCmdRpush : Handler := fkCmdGenericPush .tail
def fkCmdLpop : Handler := fkCmdGenericPop .head
def fkCmdRpop : Handler := fkCmdGenericPop .tail

def fkCmdLlen : Handler := fun client args => do
  let key ← getArg args 1
  let db ← dbOf client
  let value ← dbGet db key
  ofType client .list value (reply client (fkConnAddIntRsp 0)) fun item => do
    let nodes ← rawList item
    reply client (fkConnAddIntRsp nodes.length)

/-! ## `fk_svr_hash.c` -/

def fkCmdHset : Handler := fun client args => do
  let hkey ← getArg args 1
  let key ← getArg args 2
  let db ← dbOf client
  let hitm ← dbGet db hkey
  ofType client .dict hitm
    (do
      let value ← getArg args 3
      let added ← dictAdd fkDictCreate key value
      let item ← onItems (FkItems.fkItemCreate .dict (.dict added.2))
      let _ ← dbAdd db hkey item
      reply client (fkConnAddIntRsp 1))
    fun item => do
      let fields ← rawDict item
      let value ← getArg args 3
      let added ← dictAdd fields key value
      onItems (FkItems.setEntity item (.dict added.2))
      reply client (fkConnAddIntRsp 1)

def fkCmdHget : Handler := fun client args => do
  let hkey ← getArg args 1
  let key ← getArg args 2
  let db ← dbOf client
  let hitm ← dbGet db hkey
  ofType client .dict hitm (reply client (fkConnAddBulkRsp fkRspNil)) fun item => do
    let fields ← rawDict item
    let value ← dictGet fields key
    ofType client .str value (reply client (fkConnAddBulkRsp fkRspNil)) (replyStr client)

/-! ## `fk_svr_zset.c` -/

/-- `fk_skiplist_create` copies the null data of its first node, so a new key crashes.  A key that
exists is taken for a skip list without a look at its tag; `fk_skiplist_insert` is empty. -/
def fkCmdZadd : Handler := fun client args => do
  let key ← getArg args 1
  let db ← dbOf client
  let value ← dbGet db key
  match value with
  | none => crash
  | some item => do
      let _ ← raw .sklist item
      if (args.length - 2) % 2 ≠ 0 then reply client (fkConnAddErrorRsp fkRspArgcErr)
      else do
        Act.forEach (fun pair => lookStr pair.1) (pairs (args.drop 2))
        reply client (fkConnAddIntRsp ((args.length - 2) / 2 : Nat))

/-! ## Dispatch -/

section Dispatch

variable (fkCmdEval : Handler)

/-- The handlers of the command table. -/
def handlers : List (Bytes × Handler) :=
  [(ascii "SET", fkCmdSet), (ascii "SETNX", fkCmdSetnx), (ascii "SETEX", fkCmdSetex),
    (ascii "MSET", fkCmdMset), (ascii "MGET", fkCmdMget), (ascii "GET", fkCmdGet),
    (ascii "DEL", fkCmdDel), (ascii "FLUSHDB", fkCmdFlushdb),
    (ascii "EXISTS", fkCmdExists), (ascii "FLUSHALL", fkCmdFlushall), (ascii "HSET", fkCmdHset),
    (ascii "HGET", fkCmdHget), (ascii "LPUSH", fkCmdLpush), (ascii "RPUSH", fkCmdRpush),
    (ascii "LPOP", fkCmdLpop), (ascii "RPOP", fkCmdRpop), (ascii "LLEN", fkCmdLlen),
    (ascii "SAVE", fkCmdSave), (ascii "SELECT", fkCmdSelect),
    (ascii "EVAL", fkCmdEval), (ascii "ZADD", fkCmdZadd)]

def handlerOf (name : Bytes) : Handler :=
  ((handlers fkCmdEval).lookup name).getD fun _ _ => Act.fault

/-- Names, types and numbers of arguments are those of the command table; its own handlers are
not used. -/
def protoOf (name : Bytes) : Option FkProto := fkProtoSearch (fun _ => Act.fault) name

/-- `fk_blog_append` looks at every argument. -/
def fkBlogAppend (client : Nat) (pto : FkProto) (args : List Nat) : Act FkSvr Unit := do
  let conn ← connOf client
  let blogOn ← Act.read FkSvr.blogOn
  Act.onlyIf (blogOn = true ∧ pto.type ≠ .read ∧ conn.out.type = .real) (Act.forEach lookStr args)

/-- `fk_conn_proc_cmd` on a parsed request.  The name is turned to upper case in place, which
only the log could see.  The arguments of a handler that gives up are released with the
connection, which is removed then. -/
def fkConnProcCmd (client : Nat) : Act FkSvr Unit := do
  let conn ← connOf client
  let first ← getArg conn.args 0
  let name ← rawStr first
  match protoOf (fkStr2upper name) with
  | none => do
      fkConnFreeArgs client
      reply client (fkConnAddErrorRsp (ascii "Invalid Protocol"))
  | some pto =>
      if pto.accepts conn.args.length = true then do
        handlerOf fkCmdEval pto.name client conn.args
        fkBlogAppend client pto conn.args
        fkConnFreeArgs client
      else do
        fkConnFreeArgs client
        reply client (fkConnAddErrorRsp (ascii "Wrong Argument Number"))

/-! ## Events -/

/-- The first argument of a request is its name.  A sweep is some of its samples, one after the
other; a dump is what a child process does in the background. -/
inductive Event where
  | connect (client : Nat)
  | header (client : Nat) (argParsed : Nat)
  | name (client : Nat) (bytes : Bytes)
  | arg (client : Nat) (bytes : Bytes)
  | sent (client : Nat) (count : Nat)
  | close (client : Nat)
  | sample (idx : Nat) (number : Nat)
  | dump

/-- `fk_svr_remove_conn`. -/
def fkSvrRemoveConn (client : Nat) : Act FkSvr Unit := do
  fkConnFreeArgs client
  Act.modify fun svr => { svr with conns := svr.conns.drop client }

/-- The part of `fk_conn_read_cb` that runs a command. -/
def runCmd (client : Nat) : Act FkSvr Unit := fun svr =>
  match fkConnProcCmd fkCmdEval client svr with
  | .err after => if after.crashed = true then .ok () after else fkSvrRemoveConn client after
  | other => other

/-- The part of `fk_conn_parse_req` that stores an argument. -/
def parseArg (client : Nat) (bytes : Bytes) : Act FkSvr Unit := do
  let item ← onItems (FkItems.fkItemCreate .str (.str bytes))
  let conn ← connOf client
  onItems (FkItems.fkItemIncRef item)
  setConn client { conn with args := conn.args ++ [item] }
  Act.onlyIf (conn.args.length + 1 = conn.argParsed) (runCmd fkCmdEval client)

/-- The body of the loop of `fk_svr_clear_timeout_keys`; a remainder by zero is a crash. -/
def sampleOne (idx number : Nat) (dct : FkDict Nat Nat) : Act FkSvr Unit :=
  match fkDictRandom dct number with
  | none => fun svr => .ok () { svr with crashed := true }
  | some elt => do
      let _ ← fkHandleExpiredKey idx elt.1

/-- What happens at a client that is connected, or at one that is not. -/
def atConn (client : Nat) (absent : Act FkSvr Unit) (present : FkConn → Act FkSvr Unit) :
    Act FkSvr Unit := fun svr =>
  match svr.conns.find client with
  | none => absent svr
  | some conn => present conn svr

section Steps

variable (maxWbuf : Nat)

def Event.act : Event → Act FkSvr Unit
  | .connect client =>
      atConn client (setConn client ⟨[], 0, (fkConnCreate .real maxWbuf).toFkConnOut⟩)
        fun _ => pure ()
  | .header client argParsed =>
      atConn client (pure ()) fun conn =>
        Act.onlyIf (conn.argParsed = 0) (setConn client { conn with argParsed := argParsed })
  | .name client bytes =>
      atConn client (pure ()) fun conn =>
        Act.onlyIf (conn.argParsed ≠ 0 ∧ conn.args = []) (parseArg fkCmdEval client bytes)
  | .arg client bytes =>
      atConn client (pure ()) fun conn =>
        Act.onlyIf (conn.argParsed ≠ 0 ∧ conn.args ≠ []) (parseArg fkCmdEval client bytes)
  | .sent client count =>
      atConn client (pure ()) fun conn =>
        setConn client { conn with
          out := { conn.out with wbuf := (conn.out.wbuf.fkBufLowInc count).fkBufShrink } }
  | .close client => atConn client (pure ()) fun _ => fkSvrRemoveConn client
  | .sample idx number => do
      let dbcnt ← Act.read FkSvr.dbcnt
      Act.onlyIf (idx < dbcnt) (dictAt (true, idx) >>= sampleOne idx number)
  | .dump => fkKdbSave

/-- One event; after a crash nothing happens.  A fault has no result. -/
def step (svr : FkSvr) (event : Event) : Option FkSvr :=
  if svr.crashed = true then some svr
  else
    match event.act fkCmdEval maxWbuf svr with
    | .ok _ after => some after
    | _ => none

end Steps

end Dispatch

/-- Empty databases and no client. -/
def fkSvrInit (dbcnt : Nat) (blogOn : Bool) (clock : Nat → Int) (junk : Nat → UInt8) : FkSvr where
  items := fkItemInit
  casts := []
  dbcnt := dbcnt
  dicts := (List.range dbcnt).foldl
    (fun dicts idx => (dicts.put (false, idx) fkDictCreate).put (true, idx) fkDictCreate) .empty
  conns := .empty
  savePid := -1
  blogOn := blogOn
  clock := clock
  readings := 0
  junk := junk
  crashed := false

end Freekick.Refs
