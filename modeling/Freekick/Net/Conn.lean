import Freekick.Base.Buf
import Freekick.Base.Vtr

/-!
# Connections and request parsing: `fk_svr_conn.c`

The parser keeps its position in the connection: `argParsed` after the count
line, `curArglen` after a length line and `argCnt` arguments in `argVtr`.
`fk_conn_parse_req` writes to the vector without a bounds check; `none` is a
write outside of it.  The parser touches one half of the connection and the
command handlers the other, which the types keep apart.
-/

namespace Freekick

open Lib.Decimal

/-! ## Constants of `fk_svr.h` -/

def fkBufHighwat : Nat := 4 * 1024 * 1024
def fkBufInitLen : Nat := 16
def fkArgHighwat : Nat := 1024 * 1024
def fkArgCntHighwat : Nat := 128
def fkArgCntLineHighwat : Nat := 5
def fkArgLenLineHighwat : Nat := 9
def fkVtrInitLen : Nat := 4

def carriageReturn : UInt8 := 13
def lineFeed : UInt8 := 10
def starByte : UInt8 := 42
def dollarByte : UInt8 := 36

/-- `FK_CONN_REAL` and `FK_CONN_FAKE`. -/
inductive FkConnType where
  | real
  | fake
  deriving DecidableEq, Repr

/-- The half of `fk_conn_t` that the parser works on. -/
structure FkConnIn where
  rbuf : FkBuf
  argVtr : FkVtr Bytes
  argParsed : Nat
  argCnt : Nat
  curArglen : Int
  parseDone : Bool

/-- The half of `fk_conn_t` that the command handlers work on. -/
structure FkConnOut where
  type : FkConnType
  wbuf : FkBuf
  dbIdx : Nat

structure FkConn extends FkConnIn, FkConnOut

def fkConnCreate (type : FkConnType) (maxWbuf : Nat) : FkConn where
  type := type
  rbuf := fkBufCreate fkBufInitLen fkBufHighwat
  wbuf := fkBufCreate fkBufInitLen maxWbuf
  argVtr := fkVtrCreate fkVtrInitLen
  argParsed := 0
  argCnt := 0
  curArglen := -1
  parseDone := false
  dbIdx := 0

/-! ## Header lines -/

/-- What tells the argument count line from an argument length line: the first
byte, the longest line, the digit check and the limits of the number. -/
structure LineRule where
  mark : UInt8
  highwat : Nat
  isSeq : Bytes → Bool
  least : Nat
  most : Nat

def cntLine : LineRule :=
  ⟨starByte, fkArgCntLineHighwat, fkUtilIsPositiveSeq, 1, fkArgCntHighwat⟩

def lenLine : LineRule :=
  ⟨dollarByte, fkArgLenLineHighwat, fkUtilIsNonminusSeq, 0, fkArgHighwat⟩

inductive Line where
  | again
  | err
  | number (number : Nat) (used : Nat)
  deriving DecidableEq, Repr

/-- Read one header line from the front of the payload.  With `start` at its first
byte and `end` at the line feed found, `position` is `end - start - 1`. -/
def argLine (rule : LineRule) (payload : Bytes) : Line :=
  if payload.head? ≠ some rule.mark then .err
  else
    let searchLen := min (payload.length - 1) rule.highwat
    match memchr (payload.drop 1) lineFeed searchLen with
    | none => if searchLen = rule.highwat then .err else .again
    | some position =>
        if payload[position]? ≠ some carriageReturn then .err
        else if position < 2 then .err
        else if !rule.isSeq ((payload.drop 1).take (position - 1)) then .err
        else
          let number := atoi (payload.drop 1)
          if number < rule.least ∨ (rule.most : Int) < number then .err
          else .number number.toNat (position + 2)

/-! ## `fk_conn_parse_req` -/

/-- The part of the loop body that reads a length line when none is pending.  The
first component is the code to return, if any. -/
def parseLen (conn : FkConnIn) : Option FkRt × FkConnIn :=
  if conn.curArglen = -1 then
    match argLine lenLine conn.rbuf.payload with
    | .again => (some .again, conn)
    | .err => (some .err, conn)
    | .number argl used =>
        (none, { conn with curArglen := argl, rbuf := conn.rbuf.fkBufLowInc used })
  else (none, conn)

/-- The part of the loop body that stores the pending argument if it is complete. -/
def parseArg (conn : FkConnIn) : Option (Option FkRt × FkConnIn) :=
  let argLen := conn.curArglen.toNat
  let payload := conn.rbuf.payload
  if argLen + 2 ≤ conn.rbuf.fkBufPayloadLen then
    if payload[argLen]? ≠ some carriageReturn ∨ payload[argLen + 1]? ≠ some lineFeed then
      some (some .err, conn)
    else
      (conn.argVtr.fkVtrSet conn.argCnt (some (payload.take argLen))).map fun argVtr =>
        let stored := { conn with
          argVtr := argVtr
          argCnt := conn.argCnt + 1
          curArglen := -1
          rbuf := conn.rbuf.fkBufLowInc (argLen + 2) }
        if stored.argParsed = stored.argCnt then (some .ok, { stored with parseDone := true })
        else (none, stored)
  else some (some .again, conn)

/-- The loop of `fk_conn_parse_req` while payload is left.  Every round that does
not return consumes some of it, so the payload length is enough fuel. -/
def parseArgs : Nat → FkConnIn → Option (FkRt × FkConnIn)
  | 0, conn => some (.again, conn)
  | fuel + 1, conn =>
      if conn.rbuf.fkBufPayloadLen = 0 then some (.again, conn)
      else
        match parseLen conn with
        | (some rt, known) => some (rt, known)
        | (none, known) =>
            match parseArg known with
            | none => none
            | some (some rt, stored) => some (rt, stored)
            | some (none, stored) => parseArgs fuel stored

def fkConnParseReq (conn : FkConnIn) : Option (FkRt × FkConnIn) :=
  if conn.argParsed = 0 ∧ 0 < conn.rbuf.fkBufPayloadLen then
    match argLine cntLine conn.rbuf.payload with
    | .again => some (.again, conn)
    | .err => some (.err, conn)
    | .number argc used =>
        parseArgs conn.rbuf.fkBufPayloadLen { conn with
          argParsed := argc
          argVtr := conn.argVtr.fkVtrStretch argc
          rbuf := conn.rbuf.fkBufLowInc used }
  else parseArgs conn.rbuf.fkBufPayloadLen conn

/-- The argument slots `0 .. arg_cnt - 1`. -/
def FkConnIn.argSlots (conn : FkConnIn) : List (Option Bytes) :=
  conn.argVtr.array.take conn.argCnt

/-- Drop the arguments and make the connection ready for the next request. -/
def fkConnFreeArgs (conn : FkConnIn) : FkConnIn :=
  { conn with
    argVtr := FkVtr.fkVtrShrink { conn.argVtr with
      array := conn.argVtr.array.mapIdx fun index slot => if index < conn.argCnt then
      none else slot }
    curArglen := -1
    argParsed := 0
    parseDone := false
    argCnt := 0 }

end Freekick
