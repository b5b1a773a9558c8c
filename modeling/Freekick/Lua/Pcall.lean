import Freekick.Lib.Steps
import Freekick.Store.OneReply

/-!
# Commands from scripts: `fk_svr_lua.c`

All calls of `redis.pcall` share one connection.  A call runs its command there, looks at
the first byte of the write buffer and decodes what begins there.  The decoders of statuses
and errors consume the whole payload; those of numbers, bulks and tables consume nothing, so
that the next call finds the same bytes again.
-/

namespace Freekick

open Lib.Call Lib.Steps

/-! ## Values of the script -/

inductive LuaScalar where
  | boolean (value : Bool)
  | number (value : Int)
  | string (bytes : Bytes)
  deriving DecidableEq

inductive LuaKey where
  | name (bytes : Bytes)
  | index (position : Nat)
  deriving DecidableEq

/-- What a call pushes. -/
inductive LuaValue where
  | scalar (value : LuaScalar)
  | table (entries : List (LuaKey × LuaScalar))
  deriving DecidableEq

/-! ## The decoders -/

/-- The block from the start of the payload to its end. -/
def FkBuf.memory (buf : FkBuf) : Bytes :=
  (List.range (buf.len - buf.low)).map fun offset => buf.buffer (buf.low + offset)

/-- `memchr` for the end of a line.  `none` is a search that leaves the block. -/
def searchLine (memory : Bytes) (start count : Nat) : Option (Option Nat) :=
  match memchr (memory.drop start) lineFeed count with
  | some offset => some (some (start + offset))
  | none => if start + count ≤ memory.length then some none else none

/-- `lua_pushlstring`; the bytes must lie in the block. -/
def luaPushlstring (memory : Bytes) (start : Nat) (len : Int) : Option LuaScalar :=
  if 0 ≤ len ∧ start + len.toNat ≤ memory.length then
    some (.string ((memory.drop start).take len.toNat)) else none

/-- The table of a status or an error; the whole payload is consumed. -/
def parseLine (key : Bytes) (buf : FkBuf) : Option (LuaValue × FkBuf) :=
  if buf.fkBufPayloadLen < 3 then none
  else some (.table [(.name key, .string ((buf.memory.drop 1).take (buf.fkBufPayloadLen - 3)))],
    buf.fkBufLowInc buf.fkBufPayloadLen)

def fkLuaParseStatus (buf : FkBuf) : Option (LuaValue × FkBuf) := parseLine (ascii "ok") buf

def fkLuaParseError (buf : FkBuf) : Option (LuaValue × FkBuf) := parseLine (ascii "err") buf

def fkLuaParseInteger (buf : FkBuf) : Option (LuaValue × FkBuf) :=
  some (.scalar (.number (atoi (buf.memory.drop 1))), buf)

/-- The value of a bulk whose header ends at `e`. -/
def bulkScalar (memory : Bytes) (e : Option Nat) (blen : Int) : Option LuaScalar :=
  if blen = -1 then some (.boolean false) else e.bind fun e => luaPushlstring memory (e + 1) blen

def fkLuaParseBulk (buf : FkBuf) : Option (LuaValue × FkBuf) := do
  let e ← searchLine buf.memory 0 buf.fkBufPayloadLen
  let value ← bulkScalar buf.memory e (atoi (buf.memory.drop 1))
  some (.scalar value, buf)

/-- The loop of `fk_lua_parse_mbulk`; `e` is the end of the line before, and the round of a
byte that starts no element leaves it there. -/
def mbulkLoop (memory : Bytes) (len : Nat) :
    Nat → Option Nat → Nat → Option (List (LuaKey × LuaScalar))
  | 0, _, _ => some []
  | _ + 1, none, _ => none
  | left + 1, some e, i =>
      match memory[e + 1]? with
      | none => none
      | some byte =>
          if byte = dollarByte then do
            let found ← searchLine memory (e + 2) len
            let blen := atoi (memory.drop (e + 2))
            let value ← bulkScalar memory found blen
            let header ← found
            let rest ← mbulkLoop memory len left (some ((header : Int) + (blen + 2)).toNat) (i + 1)
            some ((.index (i + 1), value) :: rest)
          else if byte = 58 then do
            let found ← searchLine memory (e + 2) len
            let rest ← mbulkLoop memory len left found (i + 1)
            some ((.index (i + 1), .number (atoi (memory.drop (e + 2)))) :: rest)
          else mbulkLoop memory len left (some e) (i + 1)

def fkLuaParseMbulk (buf : FkBuf) : Option (LuaValue × FkBuf) := do
  let e ← searchLine buf.memory 0 buf.fkBufPayloadLen
  let entries ← mbulkLoop buf.memory buf.fkBufPayloadLen (atoi (buf.memory.drop 1)).toNat e 0
  some (.table entries, buf)

/-- The switch of `fk_lua_pcall`.  Without one of the five bytes `rt` is not set. -/
def fkLuaParse (buf : FkBuf) : Option (LuaValue × FkBuf) :=
  match buf.memory.head? with
  | none => none
  | some start =>
      if start = 43 then fkLuaParseStatus buf
      else if start = 45 then fkLuaParseError buf
      else if start = 58 then fkLuaParseInteger buf
      else if start = starByte then fkLuaParseMbulk buf
      else if start = dollarByte then fkLuaParseBulk buf
      else none

/-! ## Calls -/

/-- The state after a reply whose return code nobody looks at. -/
def settled : Outcome Work Unit → Option Work
  | .ok _ work => some work
  | .err work => some work
  | .fault => none

/-- `fk_lua_conn_proc_cmd` on complete arguments.  Nothing is written to the log. -/
def fkLuaConnProcCmd (fkCmdEval : Handler) (args : List Bytes) (work : Work) : Option Work :=
  match args with
  | [] => none
  | first :: rest =>
      let name := fkStr2upper first
      match fkProtoSearch fkCmdEval name with
      | none => settled (fkConnAddErrorRsp (ascii "Invalid Protocol") work)
      | some pto =>
          if (pto.argCnt < 0 ∧ (args.length : Int) < -pto.argCnt) ∨
            (0 < pto.argCnt ∧ pto.argCnt ≠ args.length) then
            settled (fkConnAddErrorRsp (ascii "Wrong Argument Number") work)
          else
            match pto.handler (name :: rest) work with
            | .ok _ after => some after
            | .err after => settled (fkConnAddErrorRsp (ascii "cmd handler failed") after)
            | .fault => none

/-- `fk_lua_pcall` on strings: the value that it pushes and the state it leaves. -/
def fkLuaPcall (fkCmdEval : Handler) (args : List Bytes) (work : Work) :
    Option (LuaValue × Work) := do
  let after ← fkLuaConnProcCmd fkCmdEval args work
  let (value, wbuf) ← fkLuaParse after.out.wbuf
  some (value, after.withWbuf wbuf)

end Freekick
