import Freekick.Lib.Steps
import Freekick.Store.Link
import Freekick.Store.Space

/-!
# A buffer as a queue of bytes

Whatever moves and resizes the block, the payload is what was appended and not consumed yet.
The length of a write buffer is another matter: growth rounds up to a power of two that is
above what is needed, and looks at the limit before it grows only.
-/

namespace Freekick

open Lib Lib.Call

namespace FkBuf

/-- Bytes are copied when `fk_buf_alloc` has made room for them; the flag says whether it has. -/
def put (buf : FkBuf) (bytes : Bytes) : Option (Bool × FkBuf) :=
  (buf.fkBufAlloc bytes.length).map fun grown =>
    if grown.fkBufFreeLen < bytes.length then (false, grown) else (true, grown.append bytes)

/-- What is copied into the free space, after `fk_buf_stretch` when there is none. -/
def receive (buf : FkBuf) (bytes : Bytes) : Bytes × FkBuf :=
  let ready := if buf.fkBufFreeLen = 0 then buf.fkBufStretch else buf
  let taken := bytes.take ready.fkBufFreeLen
  (taken, ready.append taken)

end FkBuf

inductive BufOp where
  | append (bytes : Bytes)
  | receive (bytes : Bytes)
  | consume (count : Nat)
  | shift
  | shrink
  deriving DecidableEq, Repr

/-- A buffer with all that was appended and all that was consumed so far. -/
structure ByteQueue where
  buf : FkBuf
  appended : Bytes
  consumed : Bytes

def byteQueueCreate (initLen highwat : Nat) : ByteQueue := ⟨fkBufCreate initLen highwat, [], []⟩

namespace ByteQueue

def step (queue : ByteQueue) : BufOp → Option ByteQueue
  | .append bytes => (queue.buf.put bytes).map fun (copied, buf) =>
      { queue with buf := buf, appended := queue.appended ++ if copied then bytes else [] }
  | .receive bytes =>
      let (taken, buf) := queue.buf.receive bytes
      some { queue with buf := buf, appended := queue.appended ++ taken }
  | .consume count =>
      some { queue with
        buf := queue.buf.fkBufLowInc count
        consumed := queue.consumed ++ queue.buf.payload.take count }
  | .shift => some { queue with buf := queue.buf.fkBufShift }
  | .shrink => some { queue with buf := queue.buf.fkBufShrink }

/-- Nothing was lost and nothing is there twice. -/
structure Holds (highwat : Nat) (queue : ByteQueue) : Prop where
  highwat : queue.buf.highwat = highwat
  bytes : queue.consumed ++ queue.buf.payload = queue.appended

/-- An addition shorter than `2 ^ 29` bytes. -/
def Short : BufOp → Prop
  | .append bytes => bytes.length < 2 ^ 29
  | .receive _ => True
  | .consume _ => True
  | .shift => True
  | .shrink => True

variable {highwat : Nat} {queue : ByteQueue}

/-- Additions have a result, which is a copy whenever the limit allows it. -/
theorem put_spec {buf : FkBuf} {bytes : Bytes} (small : buf.highwat < 2 ^ 29)
    (short : bytes.length < 2 ^ 29) :
    ∃ copied after, buf.put bytes = some (copied, after) ∧ after.highwat = buf.highwat ∧
      after.payload = buf.payload ++ (if copied then bytes else []) ∧
      (buf.payload.length + bytes.length ≤ buf.highwat → copied = true) := by
  by_cases refused : buf.Refuses bytes.length
  · obtain ⟨allocated, less⟩ := refused.alloc
    refine ⟨false, buf.fkBufShift, ?_, FkBuf.fkBufShift_highwat buf, ?_, fun within => ?_⟩
    · rw [FkBuf.put, allocated, Option.map_some, if_pos less]
    · simp
    · have beyond := refused.1
      have full := refused.2
      rw [FkBuf.length_payload] at within
      change _ ≤ buf.highwat at within
      omega
  · have alloc := fkBufAlloc_reserve buf bytes.length
    have reserved : ∃ next, buf.load.reserve buf.highwat bytes.length = some next := by
      rcases FkBuf.reserve_of_accepted refused with ⟨_, reserved⟩ | ⟨beyond, grows, reserved⟩
      · exact ⟨_, reserved⟩
      · have used := buf.length_payload
        have lowLe := buf.low_le
        have highLe := buf.high_le
        have window : buf.fkBufPayloadLen = buf.high - buf.low := rfl
        obtain ⟨power, known⟩ := fkUtilMinPower_isSome
          (show buf.fkBufPayloadLen + bytes.length < 2 ^ 30 by omega)
        rw [known] at reserved
        exact ⟨_, reserved⟩
    obtain ⟨next, reserved⟩ := reserved
    rw [reserved] at alloc
    obtain ⟨grown, allocated, fits, _⟩ := alloc
    refine ⟨true, grown.append bytes, ?_, fits.highwat, ?_, fun _ => rfl⟩
    · rw [FkBuf.put, allocated, Option.map_some, if_neg (Nat.not_lt.mpr fits.room)]
    · rw [FkBuf.payload_append fits.room, fits.payload, if_pos rfl]

theorem receive_spec (buf : FkBuf) (bytes : Bytes) :
    (buf.receive bytes).2.highwat = buf.highwat ∧
      (buf.receive bytes).2.payload = buf.payload ++ (buf.receive bytes).1 := by
  unfold FkBuf.receive
  dsimp only
  split
  · refine ⟨?_, ?_⟩
    · change buf.fkBufStretch.highwat = buf.highwat
      unfold FkBuf.fkBufStretch
      split <;> rfl
    · rw [FkBuf.payload_append (List.length_take_le _ _), FkBuf.payload_fkBufStretch]
  · exact ⟨rfl, FkBuf.payload_append (List.length_take_le _ _)⟩

theorem Holds.step (small : highwat < 2 ^ 29) (queue : ByteQueue) (op : BufOp)
    (holds : queue.Holds highwat) (short : Short op) :
    ∃ next, queue.step op = some next ∧ next.Holds highwat := by
  obtain ⟨rfl, bytes⟩ := holds
  cases op with
  | append added =>
      obtain ⟨copied, after, put, same, payload, _⟩ := put_spec small short
      refine ⟨_, by rw [ByteQueue.step, put, Option.map_some], same, ?_⟩
      rw [payload, ← List.append_assoc, bytes]
  | receive received =>
      obtain ⟨same, payload⟩ := receive_spec queue.buf received
      refine ⟨_, rfl, same, ?_⟩
      change queue.consumed ++ (queue.buf.receive received).2.payload = queue.appended ++
        (queue.buf.receive received).1
      rw [payload, ← List.append_assoc, bytes]
  | consume count =>
      refine ⟨_, rfl, rfl, ?_⟩
      rw [FkBuf.payload_fkBufLowInc, List.append_assoc, List.take_append_drop, bytes]
  | shift => exact ⟨_, rfl, FkBuf.fkBufShift_highwat _, by rw [FkBuf.payload_fkBufShift, bytes]⟩
  | shrink => exact ⟨_, rfl, FkBuf.fkBufShrink_highwat _, by rw [FkBuf.payload_fkBufShrink, bytes]⟩

/-- Every sequence of operations leaves a queue of bytes, and what the limit allows can be added to
it. -/
theorem run_byteQueue (small : highwat < 2 ^ 29) (ops : List BufOp) (short : ∀ op ∈ ops, Short op) :
    ∃ final, Steps.run ByteQueue.step (byteQueueCreate fkBufInitLen highwat) ops = some final ∧
      final.buf.low ≤ final.buf.high ∧ final.buf.high ≤ final.buf.len ∧
      final.consumed ++ final.buf.payload = final.appended ∧
      ∀ bytes : Bytes, final.buf.payload.length + bytes.length ≤ highwat →
        ∃ after, final.buf.put bytes = some (true, after) := by
  have start : (byteQueueCreate fkBufInitLen highwat).Holds highwat := ⟨rfl, rfl⟩
  obtain ⟨final, ran, rfl, bytes⟩ := Steps.run_succeeds (Holds.step small) start short
  refine ⟨final, ran, final.buf.low_le, final.buf.high_le, bytes, fun added within => ?_⟩
  obtain ⟨copied, after, put, _, _, always⟩ := put_spec small (show added.length < 2 ^ 29 by omega)
  rw [always within] at put
  exact ⟨after, put⟩

theorem run_byteQueue_consumes : ∃ final,
    Steps.run ByteQueue.step (byteQueueCreate fkBufInitLen 64)
      [.append [1, 2, 3], .consume 2, .shrink] = some final ∧
      final.consumed ++ final.buf.payload = final.appended := by
  obtain ⟨final, ran, _, _, bytes, _⟩ :=
    @run_byteQueue 64 (by decide) [.append [1, 2, 3], .consume 2, .shrink] (by simp [Short])
  exact ⟨final, ran, bytes⟩

end ByteQueue

/-! ## The limit of a write buffer -/

/-- A call that queues a reply, and a write callback that leaves the connection open. -/
inductive WbufOp where
  | reply (rsp : Rsp)
  | write (results : List SendRt)

namespace WbufOp

section Step

variable (junk : Nat → UInt8) (wbuf : FkBuf)

def step : WbufOp → Option FkBuf
  | reply rsp =>
      match rsp.queue junk wbuf with
      | .ok _ after => some after
      | .err after => some after
      | .fault => none
  | write results =>
      if (writeLoop results wbuf).failed then none
      else some (writeLoop results wbuf).wbuf.fkBufShrink

/-- The reply is queued and the limit has room for it, or it is refused and the limit has none. -/
def Answered (rsp : Rsp) : Outcome FkBuf Unit → Prop
  | .ok _ after => wbuf.payload.length + rsp.len ≤ wbuf.highwat ∧ after.len ≤ after.highwat ∧
      after.payload = wbuf.payload ++ printed junk rsp.text rsp.len
  | .err after =>
      wbuf.highwat < wbuf.payload.length + rsp.len ∧ after.len ≤ after.highwat ∧
        after.payload = wbuf.payload
  | .fault => False

/-- The length stays within the limit, and a reply is queued exactly when the limit has room for
it. -/
def Limited : WbufOp → Prop
  | reply rsp => Answered junk wbuf rsp (rsp.queue junk wbuf)
  | write results =>
      ∀ after, step junk wbuf (write results) = some after → after.len ≤ after.highwat

/-- A reply finds a buffer that has grown to the limit, or leaves it below the limit. -/
def Small : WbufOp → Prop
  | reply rsp => wbuf.len = wbuf.highwat ∨ wbuf.payload.length + rsp.len < wbuf.highwat
  | write _ => True

instance decidableSmall : ∀ op, Decidable (Small wbuf op)
  | reply _ => inferInstanceAs (Decidable (_ ∨ _))
  | write _ => inferInstanceAs (Decidable True)

end Step

/-- A write buffer that is within its limit. -/
structure Within (maxWbuf : Nat) (wbuf : FkBuf) : Prop where
  highwat : wbuf.highwat = maxWbuf
  initLen : wbuf.initLen ≤ maxWbuf
  len : wbuf.len ≤ maxWbuf

variable {junk : Nat → UInt8} {maxWbuf exponent : Nat} {wbuf : FkBuf}

theorem writeLoop_block (results : List SendRt) (wbuf : FkBuf) :
    (writeLoop results wbuf).wbuf.initLen = wbuf.initLen ∧
      (writeLoop results wbuf).wbuf.len = wbuf.len := by
  induction results generalizing wbuf with
  | nil => exact ⟨rfl, rfl⟩
  | cons result rest ih =>
      rcases writeLoop_cases result rest wbuf with ⟨kept, _⟩ | ⟨count, later⟩
      · rw [kept]
        exact ⟨rfl, rfl⟩
      · rw [later]
        exact ih (wbuf.fkBufLowInc count)

theorem Within.shrink (within : Within maxWbuf wbuf) : Within maxWbuf wbuf.fkBufShrink := by
  obtain ⟨highwat, initLen, len⟩ := within
  unfold FkBuf.fkBufShrink
  split
  · refine ⟨?_, ?_, ?_⟩
    · exact (FkBuf.fkBufShift_highwat wbuf).trans highwat
    · exact (FkBuf.fkBufShift_initLen wbuf).trans_le initLen
    · exact initLen
  · exact ⟨highwat, initLen, len⟩

theorem Within.write (within : Within maxWbuf wbuf) {results : List SendRt} {after : FkBuf}
    (stepped : step junk wbuf (write results) = some after) : Within maxWbuf after := by
  obtain ⟨initLen, len⟩ := writeLoop_block results wbuf
  have moved : Within maxWbuf (writeLoop results wbuf).wbuf :=
    ⟨(writeLoop_highwat results wbuf).trans within.highwat, initLen.trans_le within.initLen,
      len.trans_le within.len⟩
  change (if (writeLoop results wbuf).failed then none
    else some (writeLoop results wbuf).wbuf.fkBufShrink) = some after at stepped
  split at stepped
  · cases stepped
  · cases stepped
    exact moved.shrink

theorem queue_bounds {rsp : Rsp} {after : FkBuf}
    (queued : rsp.queue junk wbuf = .ok () after ∨ rsp.queue junk wbuf = .err after) :
    after.highwat = wbuf.highwat ∧ after.initLen = wbuf.initLen := by
  unfold Rsp.queue at queued
  cases allocated : wbuf.fkBufAlloc rsp.len with
  | none => simp [allocated] at queued
  | some grown =>
      have bounds := FkBuf.bounds_fkBufAlloc allocated
      simp only [allocated] at queued
      split at queued
      · rcases queued with none | same
        · cases none
        · cases same
          exact bounds
      · rcases queued with same | none
        · cases same
          exact bounds
        · cases none

/-- Growth goes to the least power of two above what is needed, which is beyond the limit as soon as
the limit itself is needed. -/
theorem Within.limited_iff (power : maxWbuf = 2 ^ exponent) (below : maxWbuf < 2 ^ 29)
    (within : Within maxWbuf wbuf) (rsp : Rsp) :
    Limited junk wbuf (reply rsp) ↔ Small wbuf (reply rsp) := by
  have len := within.len
  have highwat := within.highwat
  have used := wbuf.length_payload
  have lowLe := wbuf.low_le
  have highLe := wbuf.high_le
  have window : wbuf.fkBufPayloadLen = wbuf.high - wbuf.low := rfl
  change Answered junk wbuf rsp (rsp.queue junk wbuf) ↔ wbuf.len = wbuf.highwat ∨
    wbuf.payload.length + rsp.len < wbuf.highwat
  by_cases refused : wbuf.Refuses rsp.len
  · obtain ⟨beyond, full⟩ := refused
    rw [Rsp.queue_refused ⟨beyond, full⟩]
    refine iff_of_true ⟨by omega, ?_, FkBuf.payload_fkBufShift wbuf⟩ (.inl (by omega))
    rw [FkBuf.fkBufShift_len, FkBuf.fkBufShift_highwat]
    omega
  · have reserves := Rsp.queue_reserve junk rsp wbuf
    rcases FkBuf.reserve_of_accepted refused with ⟨fits, reserved⟩ | ⟨beyond, grows, reserved⟩
    · rw [reserved] at reserves
      obtain ⟨after, queued, load, same, payload⟩ := reserves
      have length : after.len = wbuf.len := congrArg Space.len load
      rw [queued]
      refine iff_of_true ⟨by omega, by omega, ?_⟩ (by omega)
      rw [payload, List.flatMap_cons, List.flatMap_nil, List.append_nil]
    · rw [reserved] at reserves
      cases known : fkUtilMinPower (wbuf.fkBufPayloadLen + rsp.len) with
      | none =>
          rw [known] at reserves
          rw [show rsp.queue junk wbuf = .fault from (if_pos grows).mp reserves]
          refine iff_of_false id ?_
          rintro (same | less)
          · omega
          · obtain ⟨grown, isSome⟩ :=
              fkUtilMinPower_isSome (show wbuf.fkBufPayloadLen + rsp.len < 2 ^ 30 by omega)
            rw [known] at isSome
            cases isSome
      | some grown =>
          rw [known] at reserves
          obtain ⟨after, queued, load, same, payload⟩ := reserves
          have length : after.len = grown := congrArg Space.len load
          have larger := fkUtilMinPower_gt known
          rw [queued]
          constructor
          · rintro ⟨_, bounded, _⟩
            exact .inr (by omega)
          · rintro (full | less)
            · omega
            · have rounded : grown ≤ 2 ^ exponent := fkUtilMinPower_le (by omega) known
              refine ⟨by omega, by omega, ?_⟩
              rw [payload, List.flatMap_cons, List.flatMap_nil, List.append_nil]

theorem Within.limited_write (within : Within maxWbuf wbuf) (results : List SendRt) :
    Limited junk wbuf (WbufOp.write results) := by
  intro after stepped
  obtain ⟨highwat, _, len⟩ := within.write stepped
  omega

/-- The buffer stays within its limit when the steps are limited. -/
theorem Within.step {op : WbufOp} {after : FkBuf} (within : Within maxWbuf wbuf)
    (limited : Limited junk wbuf op) (stepped : step junk wbuf op = some after) :
    Within maxWbuf after := by
  cases op with
  | write results => exact within.write stepped
  | reply rsp =>
      change Answered junk wbuf rsp (rsp.queue junk wbuf) at limited
      unfold WbufOp.step at stepped
      cases queued : rsp.queue junk wbuf with
      | ok value next =>
          rw [queued] at limited
          simp only [queued, Option.some_inj] at stepped
          subst stepped
          obtain ⟨highwat, initLen⟩ := queue_bounds (.inl queued)
          exact ⟨highwat.trans within.highwat, initLen.trans_le within.initLen,
            limited.2.1.trans_eq (highwat.trans within.highwat)⟩
      | err next =>
          rw [queued] at limited
          simp only [queued, Option.some_inj] at stepped
          subst stepped
          obtain ⟨highwat, initLen⟩ := queue_bounds (.inr queued)
          exact ⟨highwat.trans within.highwat, initLen.trans_le within.initLen,
            limited.2.1.trans_eq (highwat.trans within.highwat)⟩
      | fault => simp [queued] at stepped

/-- Along a run of replies and partial sends the limit is a limit exactly when every reply finds a
buffer as long as the limit, or leaves less than the limit pending. -/
theorem run_limited_iff (junk : Nat → UInt8) (power : maxWbuf = 2 ^ exponent)
    (least : fkBufInitLen ≤ maxWbuf) (below : maxWbuf < 2 ^ 29) (ops : List WbufOp) :
    Steps.Throughout (WbufOp.step junk) (Limited junk) (fkBufCreate fkBufInitLen maxWbuf) ops ↔
      Steps.Throughout (WbufOp.step junk) Small (fkBufCreate fkBufInitLen maxWbuf) ops := by
  have same : ∀ wbuf op, Within maxWbuf wbuf → (Limited junk wbuf op ↔ Small wbuf op) := by
    intro wbuf op within
    cases op with
    | reply rsp => exact within.limited_iff power below rsp
    | write results => exact iff_of_true (within.limited_write results) trivial
  refine Steps.throughout_iff same ?_ ⟨rfl, least, least⟩
  intro wbuf op next within small stepped
  exact within.step ((same wbuf op within).mpr small) stepped

theorem run_limited_iff_status :
    Steps.Throughout (WbufOp.step fun _ => 0) (Limited fun _ => 0) (fkBufCreate fkBufInitLen 64)
      [reply (.status fkRspOk)] ↔ Steps.Throughout (WbufOp.step fun _ => 0) Small
      (fkBufCreate fkBufInitLen 64) [reply (.status fkRspOk)] :=
  @run_limited_iff 64 6 (fun _ => 0) rfl (by decide) (by decide) _

/-- A fresh buffer takes a reply of three times its limit. -/
theorem run_outgrows_limit : ¬Steps.Throughout (WbufOp.step fun _ => 0) (Limited fun _ => 0)
    (fkBufCreate fkBufInitLen 32) [reply (.content (List.replicate 94 97))] := by
  rintro ⟨limited, _⟩
  have answered : Answered (fun _ => 0) (fkBufCreate fkBufInitLen 32)
      (.content (List.replicate 94 97)) (Rsp.queue (fun _ => 0) (.content (List.replicate 94 97))
        (fkBufCreate fkBufInitLen 32)) := limited
  cases queued : Rsp.queue (fun _ => 0) (.content (List.replicate 94 97))
    (fkBufCreate fkBufInitLen 32) with
  | ok value after =>
      rw [queued] at answered
      exact absurd answered.1 (by decide)
  | err after =>
      have refused := Rsp.queue_err_iff.mp ⟨after, queued⟩
      exact absurd refused (by decide)
  | fault =>
      rw [queued] at answered
      exact answered

end WbufOp

end Freekick
