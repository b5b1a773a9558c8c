import Freekick.Store.Proto

/-!
# Replies as values

A reply is a term of the protocol, and a term is queued by a sequence of calls of the
`fk_conn_add_*_rsp` family.  What the calls do to a connection depends on its write
buffer alone: the first one that does not fit is refused, and the rest is not made.
-/

namespace Freekick

open Lib.Call

/-- A call of the family with the values that are passed to it. -/
inductive Rsp where
  | status (stat : Bytes)
  | error (message : Bytes)
  | content (bytes : Bytes)
  | int (num : Int)
  | bulk (bulkLen : Int)
  | mbulk (bulkCnt : Int)
  deriving DecidableEq

namespace Rsp

def send : Rsp → Act Work Unit
  | .status stat => fkConnAddStatusRsp stat
  | .error message => fkConnAddErrorRsp message
  | .content bytes => fkConnAddContentRsp bytes
  | .int num => fkConnAddIntRsp num
  | .bulk bulkLen => fkConnAddBulkRsp bulkLen
  | .mbulk bulkCnt => fkConnAddMbulkRsp bulkCnt

/-- The text that the call prints. -/
def text : Rsp → Bytes
  | .status stat => 43 :: (cString stat ++ crlf)
  | .error message => 45 :: (cString message ++ crlf)
  | .content bytes => cString bytes ++ crlf
  | .int num => 58 :: (signedDecimal (toInt32 num) ++ crlf)
  | .bulk bulkLen => dollarByte :: (signedDecimal (toInt32 bulkLen) ++ crlf)
  | .mbulk bulkCnt => starByte :: (signedDecimal (toInt32 bulkCnt) ++ crlf)

/-- The number of bytes that the call asks for. -/
def len : Rsp → Nat
  | .status stat => stat.length + 3
  | .error message => message.length + 3
  | .content bytes => bytes.length + 2
  | .int num => fkUtilDecimalDigit (toInt32 num) + 3
  | .bulk bulkLen => fkUtilDecimalDigit (toInt32 bulkLen) + 3
  | .mbulk bulkCnt => fkUtilDecimalDigit (toInt32 bulkCnt) + 3

theorem send_eq (rsp : Rsp) : rsp.send = addRsp rsp.text rsp.len := by
  cases rsp <;> rfl

/-- The call on the write buffer. -/
def queue (junk : Nat → UInt8) (rsp : Rsp) : Act FkBuf Unit := fun wbuf =>
  match wbuf.fkBufAlloc rsp.len with
  | none => .fault
  | some grown =>
      if grown.fkBufFreeLen < rsp.len then .err grown
      else .ok () (grown.append (printed junk rsp.text rsp.len))

end Rsp

/-- The calls one after the other. -/
def sendAll (rsps : List Rsp) : Act Work Unit := Act.forEach Rsp.send rsps

def queueAll (junk : Nat → UInt8) (rsps : List Rsp) : Act FkBuf Unit :=
  Act.forEach (Rsp.queue junk) rsps

/-! ## Reply terms -/

inductive Reply where
  | status (stat : Bytes)
  | error (message : Bytes)
  | int (num : Int)
  | nil
  | bulk (bytes : Bytes)
  | multi (items : List (Option Bytes))
  deriving DecidableEq

/-- A bulk header with its content, or the header of the null reply. -/
def bulkCalls : Option Bytes → List Rsp
  | none => [.bulk fkRspNil]
  | some bytes => [.bulk bytes.length, .content bytes]

/-- The calls that queue the term. -/
def Reply.calls : Reply → List Rsp
  | .status stat => [.status stat]
  | .error message => [.error message]
  | .int num => [.int num]
  | .nil => bulkCalls none
  | .bulk bytes => bulkCalls (some bytes)
  | .multi items => .mbulk items.length :: items.flatMap bulkCalls

/-! ## A call changes the write buffer only -/

/-- The work with another write buffer. -/
def Work.withWbuf (work : Work) (wbuf : FkBuf) : Work :=
  { work with out := { work.out with wbuf := wbuf } }

section Queue

variable {work : Work} {rsps : List Rsp}

theorem Rsp.send_apply (rsp : Rsp) (work : Work) :
    rsp.send work = (rsp.queue work.svr.junk work.out.wbuf).within work.withWbuf := by
  rw [Rsp.send_eq]
  unfold addRsp Rsp.queue
  cases work.out.wbuf.fkBufAlloc rsp.len with
  | none => rfl
  | some grown =>
      dsimp only
      split <;> rfl

theorem sendAll_apply (rsps : List Rsp) (work : Work) :
    sendAll rsps work = (queueAll work.svr.junk rsps work.out.wbuf).within work.withWbuf := by
  induction rsps generalizing work with
  | nil => rfl
  | cons rsp rest ih =>
      change (rsp.send >>= fun _ => sendAll rest) work = _
      cases queued : rsp.queue work.svr.junk work.out.wbuf with
      | ok value wbuf =>
          have sent : rsp.send work = .ok value (work.withWbuf wbuf) := by
            rw [Rsp.send_apply, queued]
            rfl
          have later : queueAll work.svr.junk (rsp :: rest) work.out.wbuf =
              queueAll work.svr.junk rest wbuf := Act.bind_ok queued
          rw [Act.bind_ok sent, later]
          exact ih (work.withWbuf wbuf)
      | err wbuf =>
          have sent : rsp.send work = .err (work.withWbuf wbuf) := by
            rw [Rsp.send_apply, queued]
            rfl
          have later : queueAll work.svr.junk (rsp :: rest) work.out.wbuf = .err wbuf :=
            Act.bind_err queued
          rw [Act.bind_err sent, later]
          rfl
      | fault =>
          have sent : rsp.send work = .fault := by
            rw [Rsp.send_apply, queued]
            rfl
          have later : queueAll work.svr.junk (rsp :: rest) work.out.wbuf = .fault :=
            Act.bind_fault queued
          rw [Act.bind_fault sent, later]
          rfl

theorem sendAll_single (rsp : Rsp) : sendAll [rsp] = rsp.send := Act.bind_unit rsp.send

theorem sendAll_bulk (content : Bytes) :
    sendAll (bulkCalls (some content)) = addBulkAndContent content := by
  change (Rsp.send (.bulk content.length) >>= fun _ => sendAll [.content content]) = _
  rw [sendAll_single]
  rfl

theorem queueAll_append (junk : Nat → UInt8) (first second : List Rsp) (wbuf : FkBuf) :
    queueAll junk (first ++ second) wbuf =
      (queueAll junk first >>= fun _ => queueAll junk second) wbuf := Act.forEach_append _ _ _ _

end Queue

end Freekick
