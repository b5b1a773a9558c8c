import Freekick.Refs.Items
import Freekick.Store.Cmd

/-!
# The server with its items: `fk_svr.c`, `fk_dict.c`

Databases hold items, and so do the arguments of a request.  An entity is looked at after a cast
to the type that the code expects; every cast is noted next to the tag of the item.  Replies are
those of the model without references; they do not look at a database.

A crash is a state, in which nothing happens any more.
-/

namespace Freekick.Refs

open Lib Lib.Call

/-- The part of `fk_conn_t` that a request goes through. -/
structure FkConn where
  args : List Nat
  argParsed : Nat
  out : FkConnOut

/-- `fk_svr_t` with the items.  A dictionary is named by whether it is for expiry and by its
index. -/
structure FkSvr where
  items : FkItems
  casts : List (FkItemType × FkItemType)
  dbcnt : Nat
  dicts : Objects (Bool × Nat) (FkDict Nat Nat)
  conns : Objects Nat FkConn
  savePid : Int
  blogOn : Bool
  clock : Nat → Int
  readings : Nat
  junk : Nat → UInt8
  crashed : Bool

/-- A handler gets its client and the arguments. -/
abbrev Handler := Nat → List Nat → Act FkSvr Unit

/-- A call of `fk_item.c`. -/
def onItems {A : Type} (act : Act FkItems A) : Act FkSvr A := fun svr =>
  (act svr.items).within fun items => { svr with items := items }

def crash {A : Type} : Act FkSvr A := fun svr => .err { svr with crashed := true }

/-! ## Items -/

def itemAt (id : Nat) : Act FkSvr FkItem := fun svr =>
  match svr.items.used.find id with
  | none => .fault
  | some item => .ok item svr

/-- `fk_item_raw` and a cast. -/
def raw (wanted : FkItemType) (id : Nat) : Act FkSvr Entity := fun svr =>
  match svr.items.used.find id with
  | none => .fault
  | some item => .ok item.entity { svr with casts := (item.type, wanted) :: svr.casts }

def rawStr (id : Nat) : Act FkSvr Bytes := do
  match ← raw .str id with
  | .str bytes => pure bytes
  | _ => Act.fault

def rawList (id : Nat) : Act FkSvr (List Nat) := do
  match ← raw .list id with
  | .list nodes => pure nodes
  | _ => Act.fault

def rawDict (id : Nat) : Act FkSvr (FkDict Nat Nat) := do
  match ← raw .dict id with
  | .dict fields => pure fields
  | _ => Act.fault

def rawNum (id : Nat) : Act FkSvr Int := do
  match ← raw .num id with
  | .num number => pure number
  | _ => Act.fault

/-! ## Dictionaries with the operations of `db_dict_eop` -/

/-- A string that is only looked at. -/
def lookStr (id : Nat) : Act FkSvr Unit := do
  let _ ← rawStr id

/-- A search hashes the key and compares it with others, and a stretch hashes all keys; here
every key is read. -/
def readKeys (key : Nat) (dct : FkDict Nat Nat) : Act FkSvr Unit :=
  Act.forEach lookStr (key :: dct.elements.map Prod.fst)

def dictGet (dct : FkDict Nat Nat) (key : Nat) : Act FkSvr (Option Nat) := do
  readKeys key dct
  Act.read fun svr => fkDictGet svr.items.content.eop dct key

/-- `fk_dict_add`; the dictionary that it leaves is returned. -/
def dictAdd (dct : FkDict Nat Nat) (key value : Nat) : Act FkSvr (FkDictRt × FkDict Nat Nat) := do
  readKeys key dct
  let added ← Act.read fun svr => fkDictAdd svr.items.content.eop dct key value
  match added.1 with
  | .err => pure added
  | .ok => do
      onItems (FkItems.fkItemIncRef key)
      onItems (FkItems.fkItemIncRef value)
      pure added

/-! ## The databases -/

/-- `server.db[idx]` or `server.expdb[idx]`. -/
def dictAt (place : Bool × Nat) : Act FkSvr (FkDict Nat Nat) := fun svr =>
  match svr.dicts.find place with
  | none => .fault
  | some dct => .ok dct svr

def setDict (place : Bool × Nat) (dct : FkDict Nat Nat) : Act FkSvr Unit :=
  Act.modify fun svr => { svr with dicts := svr.dicts.put place dct }

def dbGet (place : Bool × Nat) (key : Nat) : Act FkSvr (Option Nat) := do
  let dct ← dictAt place
  dictGet dct key

def dbAdd (place : Bool × Nat) (key value : Nat) : Act FkSvr FkDictRt := do
  let dct ← dictAt place
  let added ← dictAdd dct key value
  setDict place added.2
  pure added.1

/-- The second half of `fk_dict_replace`: the old value goes before the new one is taken. -/
def dbRevalue (place : Bool × Nat) (key value : Nat) : Act FkSvr Unit := do
  let dct ← dictAt place
  let old ← dictGet dct key
  match old with
  | none => Act.fault
  | some old => do
      let put ← Act.read fun svr => fkDictPut svr.items.content.eop dct key value
      onItems (FkItems.fkItemDecRef old)
      onItems (FkItems.fkItemIncRef value)
      setDict place put

def dbReplace (place : Bool × Nat) (key value : Nat) : Act FkSvr Unit := do
  let rt ← dbAdd place key value
  match rt with
  | .ok => pure ()
  | .err => dbRevalue place key value

/-- `fk_dict_remove` and whether the key was there. -/
def dbRemove (place : Bool × Nat) (key : Nat) : Act FkSvr Bool := do
  let dct ← dictAt place
  readKeys key dct
  let found ← Act.read fun svr => fkDictElt svr.items.content.eop dct key
  match found with
  | none => pure false
  | some elt => do
      let removed ← Act.read fun svr => (fkDictRemove svr.items.content.eop dct key).2
      setDict place removed
      onItems (FkItems.fkItemDecRef elt.1)
      onItems (FkItems.fkItemDecRef elt.2)
      pure true

/-- `fk_dict_empty` releases every key and value; no release looks at the dictionary, so it is
set to its first state before. -/
def dbEmpty (place : Bool × Nat) : Act FkSvr Unit := do
  let dct ← dictAt place
  setDict place (fkDictEmpty dct)
  onItems (Act.forEach FkItems.fkItemDecRef (dictSlots dct))

/-! ## Connections -/

def connOf (client : Nat) : Act FkSvr FkConn := fun svr =>
  match svr.conns.find client with
  | none => .fault
  | some conn => .ok conn svr

def setConn (client : Nat) (conn : FkConn) : Act FkSvr Unit :=
  Act.modify fun svr => { svr with conns := svr.conns.put client conn }

/-- The database that the client has selected. -/
def dbOf (client : Nat) : Act FkSvr (Bool × Nat) := do
  let conn ← connOf client
  pure (false, conn.out.dbIdx)

/-- `fk_conn_get_arg`. -/
def getArg (args : List Nat) (index : Nat) : Act FkSvr Nat :=
  match args[index]? with
  | some arg => pure arg
  | none => Act.fault

/-- One of the `fk_conn_add_*_rsp`; what is undefined there is a crash here. -/
def reply (client : Nat) (add : Act Work Unit) : Act FkSvr Unit := do
  let conn ← connOf client
  let svr ← Act.read id
  match add ⟨Freekick.fkSvrInit svr.dbcnt svr.blogOn svr.clock svr.junk, conn.out⟩ with
  | .ok _ work => setConn client { conn with out := { conn.out with wbuf := work.out.wbuf } }
  | .err work => do
      setConn client { conn with out := { conn.out with wbuf := work.out.wbuf } }
      Act.fail
  | .fault => crash

/-- `fk_conn_free_args`; no release looks at the arguments, so they are cleared before. -/
def fkConnFreeArgs (client : Nat) : Act FkSvr Unit := do
  let conn ← connOf client
  setConn client { conn with args := [], argParsed := 0 }
  onItems (Act.forEach FkItems.fkItemDecRef conn.args)

end Freekick.Refs
