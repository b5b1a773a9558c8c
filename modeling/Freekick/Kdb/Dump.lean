import Freekick.Lib.Call
import Freekick.Lib.Little
import Freekick.Net.Conn
import Freekick.Store.Svr

/-!
# Dumping and restoring: `fk_svr_kdb.c`

The file holds, for every dictionary, its index, whether it is an expiry
dictionary, its length and its elements; an element is its type, its key and its
value.  Numbers are written as they are in memory, little-endian.  File operations
themselves do not fail, but `fwrite` and `fread` return zero for zero bytes.
-/

namespace Freekick

open Lib.Call Lib.Little

/-! ## Dump -/

/-- `fwrite(ptr, size, 1, fp)` on a file that is given by its bytes. -/
def fwrite (bytes : Bytes) : Act Bytes Nat := fun file =>
  .ok (if bytes.length = 0 then 0 else 1) (file ++ bytes)

/-! The dump on any stream: `write` is what `fwrite(ptr, size, 1, fp)` does on it. -/

section Writes

variable (write : Bytes → Act Bytes Nat)

/-- A write that must not return zero. -/
def writeAllOn (bytes : Bytes) : Act Bytes Unit := do
  let wz ← write bytes
  if wz = 0 then Act.fail else pure ()

/-- A `size_t`. -/
def dumpSizeOn (len : Nat) : Act Bytes Unit := writeAllOn write (encode 8 len)

def dumpKeyOn (key : Bytes) : Act Bytes Unit := do
  dumpSizeOn write key.length
  writeAllOn write key

/-- A string that may be empty. -/
def dumpValueOn (value : Bytes) : Act Bytes Unit := do
  dumpSizeOn write value.length
  let wz ← write value
  if 0 < value.length ∧ wz = 0 then Act.fail else pure ()

def fkKdbDumpStrEltOn (key value : Bytes) : Act Bytes Unit := do
  dumpKeyOn write key
  dumpValueOn write value

/-- The bytes of a `long long`. -/
def encodeNum (number : Int) : Bytes := encode 8 (number % 2 ^ 64).toNat

def fkKdbDumpNumEltOn (key : Bytes) (number : Int) : Act Bytes Unit := do
  dumpKeyOn write key
  dumpSizeOn write 8
  writeAllOn write (encodeNum number)

def fkKdbDumpListEltOn (key : Bytes) (nodes : List Bytes) : Act Bytes Unit := do
  dumpKeyOn write key
  dumpSizeOn write nodes.length
  Act.forEach (dumpValueOn write) nodes

def fkKdbDumpDictEltOn (key : Bytes) (fields : FkDict Bytes Bytes) : Act Bytes Unit := do
  dumpKeyOn write key
  dumpSizeOn write (fkDictLen fields)
  Act.forEach (fun selt => fkKdbDumpStrEltOn write selt.1 selt.2) (fkDictVisits fields)

/-- The body of the dictionary.  The switch has no case for a skip list: `rt` keeps the
value it has, which is uninitialised before the first element. -/
def dumpEltsOn : FkRt → List (Bytes × FkItem) → Act Bytes Unit
  | _, [] => pure ()
  | rt, (key, value) :: rest => do
      writeAllOn write (encode 4 value.type)
      match value with
      | .str bytes =>
          fkKdbDumpStrEltOn write key bytes
          dumpEltsOn .ok rest
      | .list nodes =>
          fkKdbDumpListEltOn write key nodes
          dumpEltsOn .ok rest
      | .dict fields =>
          fkKdbDumpDictEltOn write key fields
          dumpEltsOn .ok rest
      | .num number =>
          fkKdbDumpNumEltOn write key number
          dumpEltsOn .ok rest
      | .sklist => if rt = .err then Act.fail else dumpEltsOn rt rest

/-- `rt` is what the uninitialised variable of that name holds. -/
def fkKdbDumpOn (rt : FkRt) (svr : FkSvr) (isexp : Bool) (idx : Nat) : Act Bytes Unit := do
  let dct := svr.dict isexp idx
  writeAllOn write (encode 4 idx)
  writeAllOn write (encode 4 isexp.toNat)
  dumpSizeOn write (fkDictLen dct)
  dumpEltsOn write rt (fkDictVisits dct)

/-- The loop of `fk_kdb_save` over the databases. -/
def dumpDbsOn (rt : FkRt) (svr : FkSvr) : Act Bytes Unit :=
  Act.forEach (fun idx => do
    fkKdbDumpOn write rt svr false idx
    fkKdbDumpOn write rt svr true idx) (List.range svr.dbcnt)

end Writes

def fwriteAll : Bytes → Act Bytes Unit := writeAllOn fwrite

def dumpSize : Nat → Act Bytes Unit := dumpSizeOn fwrite

def dumpKey : Bytes → Act Bytes Unit := dumpKeyOn fwrite

def dumpValue : Bytes → Act Bytes Unit := dumpValueOn fwrite

def fkKdbDumpStrElt : Bytes → Bytes → Act Bytes Unit := fkKdbDumpStrEltOn fwrite

def fkKdbDumpNumElt : Bytes → Int → Act Bytes Unit := fkKdbDumpNumEltOn fwrite

def fkKdbDumpListElt : Bytes → List Bytes → Act Bytes Unit := fkKdbDumpListEltOn fwrite

def fkKdbDumpDictElt : Bytes → FkDict Bytes Bytes → Act Bytes Unit := fkKdbDumpDictEltOn fwrite

def dumpElts : FkRt → List (Bytes × FkItem) → Act Bytes Unit := dumpEltsOn fwrite

def fkKdbDump : FkRt → FkSvr → Bool → Nat → Act Bytes Unit := fkKdbDumpOn fwrite

def dumpDbs : FkRt → FkSvr → Act Bytes Unit := dumpDbsOn fwrite

/-- The dump is written to a temporary file, which replaces the old one only at the end. -/
def fkKdbSave (rt : FkRt) (svr : FkSvr) : FkRt × FkSvr :=
  match dumpDbs rt svr [] with
  | .ok _ file => (.ok, { svr with dbFile := some file })
  | _ => (.err, svr)

/-! ## Restore -/

/-- The server and the rest of the file. -/
structure FkLoad where
  svr : FkSvr
  file : Bytes

/-- `fread(ptr, size, 1, fp)`: the bytes, or nothing where it returns zero. -/
def fread (size : Nat) : Act FkLoad (Option Bytes) := fun load =>
  if size = 0 then .ok none load
  else if load.file.length < size then .ok none { load with file := [] }
  else .ok (some (load.file.take size)) { load with file := load.file.drop size }

/-- `fk_dict_add` to the dictionary that is restored. -/
def restoreAdd (isexp : Bool) (idx : Nat) (key : Bytes) (value : FkItem) : Act FkLoad Unit :=
  Act.modify fun load =>
    let added := (fkDictAdd dbDictEop (load.svr.dict isexp idx) key value).2
    { load with svr := load.svr.setDict isexp idx added }

/-- A `long long` from its bytes. -/
def decodeNum (bytes : Bytes) : Int := Int.bmod (decode bytes) (2 ^ 64)

/-- A read that must not return zero. -/
def must {S : Type} (act : Act S (Option Bytes)) : Act S Bytes := do
  match ← act with
  | none => Act.fail
  | some bytes => pure bytes

/-- What the load is made of, on states that have more than the server and the file: the calls
that do not read, the reads of a variable, of the line buffer and of the variable `num`, and what
follows when `num` is not read as a whole. -/
structure LoadOps (S : Type) where
  load : S → FkLoad
  within {A : Type} : Act FkLoad A → Act S A
  freadVar : Nat → Act S (Option Bytes)
  freadLine : Nat → Act S (Option Bytes)
  freadNum : Nat → Act S (Option Bytes)
  misread : Act S Unit

section Loads

variable {S : Type} (ops : LoadOps S)

def restoreSizeOn : Act S Nat := do
  let bytes ← must (ops.freadVar 8)
  pure (decode bytes)

/-- A length that is checked against the size of an argument. -/
def restoreLenOn : Act S Nat := do
  let len ← restoreSizeOn ops
  if fkArgHighwat < len then Act.fail else pure len

def restoreKeyOn : Act S Bytes := do
  let klen ← restoreLenOn ops
  must (ops.freadLine klen)

def restoreValueOn : Act S Bytes := do
  let vlen ← restoreLenOn ops
  match ← ops.freadLine vlen with
  | some bytes => pure bytes
  | none => if 0 < vlen then Act.fail else pure []

def fkKdbRestoreStrEltOn (isexp : Bool) (idx : Nat) : Act S Unit := do
  let key ← restoreKeyOn ops
  let value ← restoreValueOn ops
  ops.within (restoreAdd isexp idx key (.str value))

/-- What follows the read of `vlen` bytes over the variable `num`: more than eight leave it, and
fewer leave part of it uninitialised. -/
def storeNumOn (isexp : Bool) (idx : Nat) (key : Bytes) (vlen : Nat) : Option Bytes → Act S Unit
  | none => if 0 < vlen then Act.fail else ops.misread
  | some bytes =>
      if vlen = 8 then ops.within (restoreAdd isexp idx key (.num (decodeNum bytes)))
      else ops.misread

def fkKdbRestoreNumEltOn (isexp : Bool) (idx : Nat) : Act S Unit := do
  let key ← restoreKeyOn ops
  let vlen ← restoreLenOn ops
  let num ← ops.freadNum vlen
  storeNumOn ops isexp idx key vlen num

def fkKdbRestoreListEltOn (isexp : Bool) (idx : Nat) : Act S Unit := do
  let key ← restoreKeyOn ops
  let llen ← restoreSizeOn ops
  let nodes ← Act.times (restoreValueOn ops) llen
  ops.within (restoreAdd isexp idx key (.list nodes))

def restorePairOn : Act S (Bytes × Bytes) := do
  let skey ← restoreKeyOn ops
  let svalue ← restoreValueOn ops
  pure (skey, svalue)

def fkKdbRestoreDictEltOn (isexp : Bool) (idx : Nat) : Act S Unit := do
  let key ← restoreKeyOn ops
  let dlen ← restoreSizeOn ops
  let selts ← Act.times (restorePairOn ops) dlen
  ops.within (restoreAdd isexp idx key (.dict (fkDictOfElts selts)))

def restoreEltOn (isexp : Bool) (idx : Nat) : Act S Unit := do
  let type ← must (ops.freadVar 4)
  match decode type with
  | 1 => fkKdbRestoreStrEltOn ops isexp idx
  | 2 => fkKdbRestoreListEltOn ops isexp idx
  | 3 => fkKdbRestoreDictEltOn ops isexp idx
  | 5 => fkKdbRestoreNumEltOn ops isexp idx
  | _ => Act.fail

/-- The read of `isexp` is not checked; when it falls short the file is at its end, and
the next read returns the error. -/
def fkKdbRestoreOn : Act S Unit := do
  let idx ← must (ops.freadVar 4)
  let dbcnt ← Act.read fun state => (ops.load state).svr.dbcnt
  if dbcnt ≤ decode idx then Act.fail
  else
    let isexp ← ops.freadVar 4
    let isexp := decode (isexp.getD []) == 1
    let cnt ← restoreSizeOn ops
    let _ ← Act.times (restoreEltOn ops isexp (decode idx)) cnt

/-- The loop of `fk_kdb_load`, where an error exits.  Every round takes at least one
byte, so the length of the file is enough fuel. -/
def loadLoopOn : Nat → Act S Unit
  | 0 => pure ()
  | fuel + 1 => do
      let file ← Act.read fun state => (ops.load state).file
      if file.isEmpty then pure ()
      else
        fkKdbRestoreOn ops
        loadLoopOn fuel

end Loads

/-- The load by itself. -/
def plainOps : LoadOps FkLoad where
  load := id
  within := id
  freadVar := fread
  freadLine := fread
  freadNum := fread
  misread := Act.fault

def freadAll (size : Nat) : Act FkLoad Bytes := must (fread size)

def restoreSize : Act FkLoad Nat := restoreSizeOn plainOps

def restoreLen : Act FkLoad Nat := restoreLenOn plainOps

def restoreKey : Act FkLoad Bytes := restoreKeyOn plainOps

def restoreValue : Act FkLoad Bytes := restoreValueOn plainOps

def fkKdbRestoreNumElt : Bool → Nat → Act FkLoad Unit := fkKdbRestoreNumEltOn plainOps

def restorePair : Act FkLoad (Bytes × Bytes) := restorePairOn plainOps

def restoreElt : Bool → Nat → Act FkLoad Unit := restoreEltOn plainOps

def fkKdbRestore : Act FkLoad Unit := fkKdbRestoreOn plainOps

def loadLoop : Nat → Act FkLoad Unit := loadLoopOn plainOps

theorem fkKdbRestore_eq : fkKdbRestore = (do
    let idx ← freadAll 4
    let dbcnt ← Act.read fun load => load.svr.dbcnt
    if dbcnt ≤ decode idx then Act.fail
    else
      let isexp ← fread 4
      let isexp := decode (isexp.getD []) == 1
      let cnt ← restoreSize
      let _ ← Act.times (restoreElt isexp (decode idx)) cnt) := rfl

theorem loadLoop_succ (fuel : Nat) : loadLoop (fuel + 1) = (do
    let file ← Act.read FkLoad.file
    if file.isEmpty then pure ()
    else
      fkKdbRestore
      loadLoop fuel) := rfl

def fkKdbLoad (svr : FkSvr) (file : Bytes) : Outcome FkLoad Unit := loadLoop file.length ⟨svr, file⟩

end Freekick
