import Freekick.Base.DictMap

/-!
# Items and the server state: `fk_item.h`, `fk_svr.h`

An item is its type tag with its data; reference counts are left out.  Keys, list
nodes and hash fields are string items and stand for their bytes.  Nothing is ever
stored in a skip list, so that item has no data.
-/

namespace Freekick

inductive FkItem where
  | str (bytes : Bytes)
  | list (nodes : List Bytes)
  | dict (fields : FkDict Bytes Bytes)
  | sklist
  | num (number : Int)
  deriving DecidableEq

/-- `FK_ITEM_STR` to `FK_ITEM_NUM`. -/
def FkItem.type : FkItem → Nat
  | .str _ => 1
  | .list _ => 2
  | .dict _ => 3
  | .sklist => 4
  | .num _ => 5

abbrev FkDb := FkDict Bytes FkItem

/-- What an item stands for. -/
inductive Value where
  | str (bytes : Bytes)
  | list (nodes : List Bytes)
  | hash (fields : Bytes → Option Bytes)
  | sklist
  | num (number : Int)

/-- A hash stands for the map of its fields. -/
def FkItem.value : FkItem → Value
  | .str bytes => .str bytes
  | .list nodes => .list nodes
  | .dict fields => .hash (fkDictGet dbDictEop fields)
  | .sklist => .sklist
  | .num number => .num number

/-- The finite map that a database stands for. -/
def dbMap (dct : FkDb) : Bytes → Option Value :=
  fun key => (fkDictGet dbDictEop dct key).map FkItem.value

/-- The part of `fk_svr_t` that commands work on, with the settings, the files and the
surroundings they see: the clock readings in milliseconds and how many were taken,
and what uninitialised memory holds.  `blog` are the arguments of each call of
`fk_blog_append`. -/
structure FkSvr where
  dbcnt : Nat
  db : Nat → FkDb
  expdb : Nat → FkDb
  savePid : Int
  dbFile : Option Bytes
  blogOn : Bool
  blog : List (List Bytes)
  clock : Nat → Int
  readings : Nat
  junk : Nat → UInt8

namespace FkSvr

/-- `server.expdb[idx]` or `server.db[idx]`. -/
def dict (svr : FkSvr) (isexp : Bool) (idx : Nat) : FkDb :=
  if isexp then svr.expdb idx else svr.db idx

def setDb (svr : FkSvr) (idx : Nat) (dct : FkDb) : FkSvr :=
  { svr with db := Function.update svr.db idx dct }

def setExpdb (svr : FkSvr) (idx : Nat) (dct : FkDb) : FkSvr :=
  { svr with expdb := Function.update svr.expdb idx dct }

def setDict (svr : FkSvr) (isexp : Bool) (idx : Nat) (dct : FkDb) : FkSvr :=
  if isexp then svr.setExpdb idx dct else svr.setDb idx dct

@[simp]
theorem db_setDb_same (svr : FkSvr) (idx : Nat) (dct : FkDb) : (svr.setDb idx dct).db idx = dct :=
  Function.update_self ..

theorem db_setDb_other {idx wanted : Nat} (svr : FkSvr) (dct : FkDb) (apart : wanted ≠ idx) :
    (svr.setDb idx dct).db wanted = svr.db wanted := Function.update_of_ne apart ..

@[simp]
theorem expdb_setExpdb_same (svr : FkSvr) (idx : Nat) (dct : FkDb) :
    (svr.setExpdb idx dct).expdb idx = dct :=
  Function.update_self ..

theorem expdb_setExpdb_other {idx wanted : Nat} (svr : FkSvr) (dct : FkDb) (apart : wanted ≠ idx) :
    (svr.setExpdb idx dct).expdb wanted = svr.expdb wanted := Function.update_of_ne apart ..

theorem dict_setDict_same (svr : FkSvr) (isexp : Bool) (idx : Nat) (dct : FkDb) :
    (svr.setDict isexp idx dct).dict isexp idx = dct := by
  cases isexp <;> exact Function.update_self ..

theorem dict_setDict_other {isexp other : Bool} {idx wanted : Nat} (svr : FkSvr) (dct : FkDb)
    (apart : (other, wanted) ≠ (isexp, idx)) :
    (svr.setDict isexp idx dct).dict other wanted = svr.dict other wanted := by
  cases isexp <;> cases other
  · exact Function.update_of_ne (fun same => apart (by rw [same])) ..
  · rfl
  · rfl
  · exact Function.update_of_ne (fun same => apart (by rw [same])) ..

theorem setDict_setDict (svr : FkSvr) (isexp : Bool) (idx : Nat) (first second : FkDb) :
    (svr.setDict isexp idx first).setDict isexp idx second = svr.setDict isexp idx second := by
  cases isexp <;> simp only [setDict, setDb, setExpdb, Bool.false_eq_true, if_false, if_true,
    Function.update_idem]

theorem setDict_self (svr : FkSvr) (isexp : Bool) (idx : Nat) :
    svr.setDict isexp idx (svr.dict isexp idx) = svr := by
  cases isexp <;> simp only [setDict, setDb, setExpdb, dict, Bool.false_eq_true, if_false, if_true,
    Function.update_eq_self]

@[simp]
theorem setDict_dbcnt (svr : FkSvr) (isexp : Bool) (idx : Nat) (dct : FkDb) :
    (svr.setDict isexp idx dct).dbcnt = svr.dbcnt := by
  cases isexp <;> rfl

end FkSvr

/-- Empty databases. -/
def fkSvrInit (dbcnt : Nat) (blogOn : Bool) (clock : Nat → Int) (junk : Nat → UInt8) : FkSvr where
  dbcnt := dbcnt
  db := fun _ => fkDictCreate
  expdb := fun _ => fkDictCreate
  savePid := -1
  dbFile := none
  blogOn := blogOn
  blog := []
  clock := clock
  readings := 0
  junk := junk

end Freekick
