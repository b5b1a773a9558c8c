import Freekick.Lib.Call
import Freekick.Net.Conn
import Freekick.Store.Svr

/-!
# Replies: the `fk_conn_add_*_rsp` family of `fk_svr_conn.c`

A handler works on the server and on the connection of its client.  Every reply is
printed into a block of its announced length and copied to the write buffer; where
the text stops at a zero byte, what follows it in the block is not initialised.
-/

namespace Freekick

open Lib.Call Lib.Decimal

/-- What a command handler works on. -/
structure Work where
  svr : FkSvr
  out : FkConnOut

abbrev Handler := List Bytes → Act Work Unit

def fkRspOk : Bytes := ascii "OK"
def fkRspErr : Bytes := ascii "ERROR"
def fkRspTypeErr : Bytes := ascii "Type Error"
def fkRspArgcErr : Bytes := ascii "Argument Number Error"
def fkRspNil : Int := -1

/-- The bytes that `memcpy` takes from the block after `snprintf` printed the text. -/
def printed (junk : Nat → UInt8) (text : Bytes) (len : Nat) : Bytes :=
  (text.take len ++ 0 :: (List.range len).map junk).take len

/-- The common body of the family: make room, check it, print and copy. -/
def addRsp (text : Bytes) (len : Nat) : Act Work Unit := fun work =>
  match work.out.wbuf.fkBufAlloc len with
  | none => .fault
  | some wbuf =>
      if wbuf.fkBufFreeLen < len then .err { work with out := { work.out with wbuf := wbuf } }
      else .ok () { work with
        out := { work.out with wbuf := wbuf.append (printed work.svr.junk text len) } }

/-- The text of `%d`. -/
def signedDecimal (number : Int) : Bytes :=
  if number < 0 then 45 :: decimal number.natAbs else decimal number.natAbs

def crlf : Bytes := [carriageReturn, lineFeed]

def fkConnAddStatusRsp (stat : Bytes) : Act Work Unit :=
  addRsp (43 :: (cString stat ++ crlf)) (stat.length + 3)

def fkConnAddErrorRsp (error : Bytes) : Act Work Unit :=
  addRsp (45 :: (cString error ++ crlf)) (error.length + 3)

def fkConnAddContentRsp (content : Bytes) : Act Work Unit :=
  addRsp (cString content ++ crlf) (content.length + 2)

/-- `:%d`, `$%d` and `*%d`; the number is an `int`. -/
def addNumberRsp (mark : UInt8) (number : Int) : Act Work Unit :=
  addRsp (mark :: (signedDecimal (toInt32 number) ++ crlf))
    (fkUtilDecimalDigit (toInt32 number) + 3)

def fkConnAddIntRsp (num : Int) : Act Work Unit := addNumberRsp 58 num

def fkConnAddBulkRsp (bulkLen : Int) : Act Work Unit := addNumberRsp dollarByte bulkLen

def fkConnAddMbulkRsp (bulkCnt : Int) : Act Work Unit := addNumberRsp starByte bulkCnt

/-- A bulk header and its content. -/
def addBulkAndContent (content : Bytes) : Act Work Unit := do
  fkConnAddBulkRsp content.length
  fkConnAddContentRsp content

/-! ## Replies that fit -/

section Fit

variable {work : Work} {text : Bytes} {len : Nat}

theorem length_printed (junk : Nat → UInt8) (text : Bytes) (len : Nat) :
    (printed junk text len).length = len := by
  simp only [printed, List.length_take, List.length_append, List.length_cons, List.length_map,
    List.length_range]
  omega

theorem printed_eq (junk : Nat → UInt8) (text : Bytes) : printed junk text text.length = text := by
  rw [printed, List.take_length, List.take_left]

/-- A buffer with enough free space is not moved. -/
theorem fkBufAlloc_room {buf : FkBuf} (room : len ≤ buf.fkBufFreeLen) :
    buf.fkBufAlloc len = some buf := by
  have enough : ¬ buf.fkBufFreeLen < len := Nat.not_lt.mpr room
  unfold FkBuf.fkBufAlloc
  dsimp only
  rw [if_neg enough, if_neg (fun both => enough both.1)]

theorem addRsp_room (room : len ≤ work.out.wbuf.fkBufFreeLen) :
    addRsp text len work = .ok () { work with
      out := { work.out with wbuf := work.out.wbuf.append (printed work.svr.junk text len) } } := by
  rw [addRsp, fkBufAlloc_room room]
  dsimp only
  rw [if_neg (Nat.not_lt.mpr room)]

/-- The reply that most commands give. -/
theorem fkConnAddStatusRsp_ok (room : 5 ≤ work.out.wbuf.fkBufFreeLen) :
    ∃ wbuf, fkConnAddStatusRsp fkRspOk work = .ok ()
      { work with out := { work.out with wbuf := wbuf } } ∧
      wbuf.payload = work.out.wbuf.payload ++ ascii "+OK\r\n" := by
  have whole : printed work.svr.junk (43 :: (cString fkRspOk ++ crlf)) 5 = ascii "+OK\r\n" :=
    printed_eq _ _
  refine ⟨_, addRsp_room room, ?_⟩
  rw [FkBuf.payload_append (by rw [length_printed]; exact room)]
  exact congrArg _ whole

end Fit

end Freekick
