import Freekick.Net.Receive

/-!
# Where a read buffer brims over

A client that sends well-formed requests meets a full read buffer exactly when one `recv`
fills a buffer of `FK_BUF_HIGHWAT` bytes: what waits in it then is too short to be moved
down and the buffer may not grow, so the next pass finds no room.
-/

namespace Freekick

open Lib.Decimal Lib.Resume

/-! ## The condition -/

/-- The buffer cannot grow beyond its length, or beyond the next one, and the socket has
enough bytes to reach the end of it. -/
def FkBuf.Brims (buf : FkBuf) (ready : Nat) : Prop :=
  (buf.len = fkBufHighwat ∨ 2 * buf.len = fkBufHighwat ∧ buf.high = buf.len) ∧
    fkBufHighwat ≤ buf.high + ready

instance (buf : FkBuf) (ready : Nat) : Decidable (buf.Brims ready) :=
  inferInstanceAs (Decidable
    ((buf.len = fkBufHighwat ∨ 2 * buf.len = fkBufHighwat ∧ buf.high = buf.len) ∧
      fkBufHighwat ≤ buf.high + ready))

namespace Reader

/-- No `recv` of a callback finds a buffer that brims over, while every command succeeds. -/
def Spared : List RecvRt → Reader Unit → Prop
  | [], _ => True
  | result :: rest, reader =>
      ¬ reader.conn.rbuf.Brims (result.ready reader.stream) ∧
        ((reader.pass handOn result).1 = true → Spared rest (reader.pass handOn result).2)

/-- The same for one callback after the other. -/
def SparedAll : List (List RecvRt) → Reader Unit → Prop
  | [], _ => True
  | results :: rest, reader =>
      reader.Spared results ∧
        ((fkConnReadCb handOn results reader).ending = .left .waits →
          SparedAll rest (fkConnReadCb handOn results reader))

instance decidableSpared (results : List RecvRt) (reader : Reader Unit) :
    Decidable (reader.Spared results) :=
  match results with
  | [] => isTrue trivial
  | result :: rest =>
      have := decidableSpared rest (reader.pass handOn result).2
      inferInstanceAs (Decidable (¬ reader.conn.rbuf.Brims (result.ready reader.stream) ∧
        ((reader.pass handOn result).1 = true → Spared rest (reader.pass handOn result).2)))

instance decidableSparedAll (callbacks : List (List RecvRt)) (reader : Reader Unit) :
    Decidable (reader.SparedAll callbacks) :=
  match callbacks with
  | [] => isTrue trivial
  | results :: rest =>
      have := decidableSparedAll rest (fkConnReadCb handOn results reader)
      inferInstanceAs (Decidable (reader.Spared results ∧
        ((fkConnReadCb handOn results reader).ending = .left .waits →
          SparedAll rest (fkConnReadCb handOn results reader))))

end Reader

/-! ## How much payload waits -/

/-- A pending length is one that the parser lets through. -/
def Request.Within : Request → Prop
  | .busy _ _ (some argLen) _ => argLen ≤ fkArgHighwat
  | _ => True

theorem requestStep_within {request next : Request} {payload : Bytes} {used : Nat}
    {output : Option (List Bytes)}
    (verdict : requestStep request payload = .move used next output) : next.Within := by
  obtain ⟨nonempty, moves⟩ := requestStep_move verdict
  rcases moves with ⟨argc, room, _, _, rfl, _⟩ | ⟨expected, args, argl, room, _, read, rfl, _⟩ |
    ⟨expected, args, argLen, room, _, _, _, _, _, final⟩
  · trivial
  · obtain ⟨_, _, _, _, most, _⟩ := (argLine_number_iff lenLine_lawful nonempty).mp read
    exact most
  · unfold argVerdict at final
    split at final
    · cases final
      trivial
    · cases final
      trivial

theorem run_within {request : Request} {payload : Bytes} (within : request.Within) :
    (requestMachine.run request payload).state.Within := by
  induction request, payload using requestMachine.run_induction with
  | wait request payload verdict =>
      rw [requestMachine.run_wait verdict]
      exact within
  | fail request payload verdict =>
      rw [requestMachine.run_fail verdict]
      exact within
  | move request payload used next output verdict ih =>
      rw [requestMachine.run_move verdict]
      exact ih (requestStep_within verdict)

theorem argLine_again_length {rule : LineRule} {payload : Bytes} (nonempty : payload ≠ [])
    (read : argLine rule payload = .again) : payload.length ≤ rule.highwat := by
  have some := List.length_pos_iff.mpr nonempty
  unfold argLine at read
  split at read
  · cases read
  · dsimp only at read
    split at read
    · split at read
      · cases read
      · next short => omega
    · repeat' split at read
      all_goals cases read

/-- The payload that a connection waits with is less than one argument and its line end. -/
theorem length_le_of_wait {request : Request} {payload : Bytes} (within : request.Within)
    (waits : requestStep request payload = .wait) : payload.length ≤ fkArgHighwat + 1 := by
  unfold requestStep at waits
  split at waits
  · next empty =>
      rw [empty]
      exact Nat.zero_le _
  · next nonempty =>
      split at waits
      · split at waits
        · next read => exact Nat.le_trans (argLine_again_length nonempty read) (by decide)
        · cases waits
        · split at waits
          · cases waits
          · cases waits
      · split at waits
        · next read => exact Nat.le_trans (argLine_again_length nonempty read) (by decide)
        · cases waits
        · cases waits
      · next expected args argLen room =>
          have bound : argLen ≤ fkArgHighwat := within
          split at waits
          · split at waits
            · cases waits
            · unfold argVerdict at waits
              split at waits
              · cases waits
              · cases waits
          · omega

/-! ## How much room there is -/

/-- A read buffer as `fk_buf_create`, `fk_buf_stretch` and `fk_buf_shrink` leave it. -/
structure FkBuf.Sized (buf : FkBuf) : Prop where
  highwat : buf.highwat = fkBufHighwat
  initLen : buf.initLen = fkBufInitLen
  len : ∃ doubled ≤ 18, buf.len = fkBufInitLen * 2 ^ doubled

/-- The lengths that matter: one that is doubled without reaching `FK_BUF_HIGHWAT`, the one
before it, and `FK_BUF_HIGHWAT` itself. -/
theorem FkBuf.Sized.cases {buf : FkBuf} (sized : buf.Sized) :
    (fkBufInitLen ≤ buf.len ∧ 4 * buf.len ≤ fkBufHighwat ∧
      ∃ doubled ≤ 16, buf.len = fkBufInitLen * 2 ^ doubled) ∨
      2 * buf.len = fkBufHighwat ∨ buf.len = fkBufHighwat := by
  obtain ⟨doubled, most, len⟩ := sized.len
  by_cases small : doubled ≤ 16
  · have powers : 2 ^ doubled ≤ 2 ^ 16 := Nat.pow_le_pow_right (by decide) small
    have positive : 1 ≤ 2 ^ doubled := Nat.one_le_two_pow
    refine .inl ⟨?_, ?_, doubled, small, len⟩
    · rw [len]
      exact Nat.le_mul_of_pos_right _ positive
    · rw [len]
      unfold fkBufInitLen fkBufHighwat
      omega
  · rcases (show doubled = 17 ∨ doubled = 18 by omega) with rfl | rfl
    · exact .inr (.inl (by rw [len]; decide))
    · exact .inr (.inr (by rw [len]; decide))

/-- What making room does, with `ready` bytes in the socket. -/
structure FkBuf.ReadySpec (buf : FkBuf) (ready : Nat) : Prop where
  sized : buf.ready.Sized
  room : 0 < buf.ready.fkBufFreeLen
  brims : buf.Brims ready → buf.ready.len = fkBufHighwat ∧ buf.ready.fkBufFreeLen ≤ ready
  slack : ¬ buf.Brims ready → buf.ready.high + min ready buf.ready.fkBufFreeLen < fkBufHighwat

section Ready

variable {buf : FkBuf} {ready : Nat}

/-- A large buffer is not moved: its payload takes little of it. -/
theorem FkBuf.moved_large (large : fkBufHighwat ≤ 2 * buf.len)
    (short : buf.fkBufPayloadLen ≤ fkArgHighwat + 1) :
    buf.moved = buf := by
  unfold fkBufHighwat at large
  unfold fkArgHighwat at short
  refine if_neg ?_
  rw [Nat.shiftRight_eq_div_pow]
  omega

/-- Stretching, as long as it is allowed. -/
theorem FkBuf.fkBufStretch_len (grows : buf.len < buf.highwat) :
    buf.fkBufStretch.len = 2 * buf.len ∧ buf.fkBufStretch.high = buf.high ∧
      buf.fkBufStretch.highwat = buf.highwat ∧ buf.fkBufStretch.initLen = buf.initLen := by
  unfold FkBuf.fkBufStretch
  rw [if_pos grows]
  refine ⟨?_, rfl, rfl, rfl⟩
  change buf.len <<< 1 = 2 * buf.len
  rw [Nat.shiftLeft_eq, pow_one, Nat.mul_comm]

/-- A small buffer has room when it is moved, stretched or left alone. -/
theorem readySpec_small (sized : buf.Sized) (least : fkBufInitLen ≤ buf.len)
    (most : 4 * buf.len ≤ fkBufHighwat) {doubled : Nat} (few : doubled ≤ 16)
    (len : buf.len = fkBufInitLen * 2 ^ doubled) : buf.ReadySpec ready := by
  have notBrims : ¬ buf.Brims ready := by
    unfold FkBuf.Brims fkBufHighwat
    unfold fkBufHighwat at most
    unfold fkBufInitLen at least
    omega
  have movedLen : buf.moved.len = buf.len := by
    unfold FkBuf.moved
    split
    · exact buf.fkBufShift_len
    · rfl
  have movedHighwat : buf.moved.highwat = fkBufHighwat := by
    unfold FkBuf.moved
    split
    · exact buf.fkBufShift_highwat.trans sized.highwat
    · exact sized.highwat
  have movedInitLen : buf.moved.initLen = fkBufInitLen := by
    unfold FkBuf.moved
    split
    · exact buf.fkBufShift_initLen.trans sized.initLen
    · exact sized.initLen
  have highLe := buf.moved.high_le
  have free : buf.moved.fkBufFreeLen = buf.moved.len - buf.moved.high := rfl
  have positive : 0 < fkBufInitLen := by decide
  by_cases full : buf.moved.fkBufFreeLen = 0
  · have grows : buf.moved.len < buf.moved.highwat := by omega
    obtain ⟨longer, high, highwat, initLen⟩ := FkBuf.fkBufStretch_len grows
    have stretched : buf.ready = buf.moved.fkBufStretch := if_pos full
    have later : buf.moved.fkBufStretch.fkBufFreeLen =
        buf.moved.fkBufStretch.len - buf.moved.fkBufStretch.high := rfl
    refine ⟨?_, ?_, fun brims => (notBrims brims).elim, fun _ => ?_⟩
    · rw [stretched]
      refine ⟨highwat.trans movedHighwat, initLen.trans movedInitLen, doubled + 1, by omega, ?_⟩
      rw [longer, movedLen, len, pow_succ, Nat.mul_comm 2, Nat.mul_assoc]
    · rw [stretched]
      omega
    · rw [stretched]
      omega
  · have kept : buf.ready = buf.moved := if_neg full
    refine ⟨?_, ?_, fun brims => (notBrims brims).elim, fun _ => ?_⟩
    · rw [kept]
      exact ⟨movedHighwat, movedInitLen, doubled, by omega, movedLen.trans len⟩
    · rw [kept]
      omega
    · rw [kept]
      omega

/-- A buffer of half the largest length is stretched when it is full. -/
theorem readySpec_half (sized : buf.Sized) (short : buf.fkBufPayloadLen ≤ fkArgHighwat + 1)
    (half : 2 * buf.len = fkBufHighwat) : buf.ReadySpec ready := by
  have kept := FkBuf.moved_large (Nat.le_of_eq half.symm) short
  have highLe := buf.high_le
  have free : buf.fkBufFreeLen = buf.len - buf.high := rfl
  have highwatPos : 0 < fkBufHighwat := by decide
  by_cases full : buf.fkBufFreeLen = 0
  · have grows : buf.len < buf.highwat := by
      rw [sized.highwat]
      omega
    obtain ⟨longer, high, highwat, initLen⟩ := FkBuf.fkBufStretch_len grows
    have stretched : buf.ready = buf.fkBufStretch := by
      unfold FkBuf.ready
      rw [kept, if_pos full]
    have later : buf.fkBufStretch.fkBufFreeLen = buf.fkBufStretch.len - buf.fkBufStretch.high := rfl
    have brims : buf.Brims ready ↔ fkBufHighwat ≤ buf.high + ready :=
      and_iff_right (.inr ⟨half, by omega⟩)
    refine ⟨?_, ?_, ?_, ?_⟩
    · rw [stretched]
      exact ⟨highwat.trans sized.highwat, initLen.trans sized.initLen, 18, Nat.le_refl _,
        by rw [longer, half]; decide⟩
    · rw [stretched]
      omega
    · rw [stretched, brims]
      omega
    · rw [stretched, brims]
      omega
  · have same : buf.ready = buf := by
      unfold FkBuf.ready
      rw [kept, if_neg full]
    have notBrims : ¬ buf.Brims ready := by
      unfold FkBuf.Brims
      omega
    refine ⟨?_, ?_, fun brims => (notBrims brims).elim, fun _ => ?_⟩
    · rw [same]
      exact sized
    · rw [same]
      omega
    · rw [same]
      omega

/-- A buffer of the largest length is left alone. -/
theorem ready_largest (sized : buf.Sized) (short : buf.fkBufPayloadLen ≤ fkArgHighwat + 1)
    (largest : buf.len = fkBufHighwat) : buf.ready = buf := by
  have kept := FkBuf.moved_large (by omega) short
  have stays : buf.fkBufStretch = buf := by
    refine if_neg ?_
    rw [sized.highwat, largest]
    exact Nat.lt_irrefl _
  unfold FkBuf.ready
  rw [kept, stays, ite_self]

theorem readySpec_largest (sized : buf.Sized) (short : buf.fkBufPayloadLen ≤ fkArgHighwat + 1)
    (largest : buf.len = fkBufHighwat) (slack : buf.high < fkBufHighwat) : buf.ReadySpec ready := by
  have same := ready_largest sized short largest
  have free : buf.fkBufFreeLen = buf.len - buf.high := rfl
  have brims : buf.Brims ready ↔ fkBufHighwat ≤ buf.high + ready := and_iff_right (.inl largest)
  refine ⟨?_, ?_, ?_, ?_⟩
  · rw [same]
    exact sized
  · rw [same]
    omega
  · rw [same, brims]
    omega
  · rw [same, brims]
    omega

theorem readySpec (sized : buf.Sized) (short : buf.fkBufPayloadLen ≤ fkArgHighwat + 1)
    (slack : buf.high < fkBufHighwat) : buf.ReadySpec ready := by
  rcases sized.cases with ⟨least, most, doubled, few, len⟩ | half | largest
  · exact readySpec_small sized least most few len
  · exact readySpec_half sized short half
  · exact readySpec_largest sized short largest slack

end Ready

/-! ## A stream of requests -/

theorem run_encAll {requests : List (List Bytes)}
    (admissible : ∀ args ∈ requests, Admissible args) :
    requestMachine.run .idle (encAll requests) = ⟨.idle, [], requests, false⟩ := by
  induction requests with
  | nil => exact requestMachine.run_wait (requestMachine.idle _)
  | cons args rest ih =>
      obtain ⟨here, there⟩ := List.forall_mem_cons.mp admissible
      change requestMachine.run .idle (enc args ++ encAll rest) = _
      rw [Machine.Emits.run _ (emits_enc here (encAll rest)), ih there]
      rfl

instance (args : List Bytes) : Decidable (Admissible args) :=
  decidable_of_iff (1 ≤ args.length ∧ args.length ≤ fkArgCntHighwat ∧
    ∀ arg ∈ args, arg.length ≤ fkArgHighwat) ⟨fun all => ⟨all.1, all.2.1, all.2.2⟩,
      fun admissible => ⟨admissible.pos, admissible.cnt, admissible.lens⟩⟩

/-- The parser waits in front of the rest of a stream of requests. -/
structure Awaits (conn : FkConnIn) (stream : Bytes) (request : Request) : Prop where
  shows : Shows conn request
  within : request.Within
  waits : requestMachine.step request conn.rbuf.payload = .wait
  stream : ∃ requests, requestMachine.run request (conn.rbuf.payload ++ stream) =
    ⟨.idle, [], requests, false⟩

/-- What holds between two calls of `recv`. -/
structure Reader.Fit (reader : Reader Unit) : Prop where
  sized : reader.conn.rbuf.Sized
  awaits : ∃ request, Awaits reader.conn reader.stream request
  opened : reader.ending = .left .waits

section Serve

variable {conn : FkConnIn} {stream : Bytes} {request : Request} {reader : Reader Unit}

theorem Awaits.short (awaits : Awaits conn stream request) :
    conn.rbuf.fkBufPayloadLen ≤ fkArgHighwat + 1 := by
  rw [← FkBuf.length_payload]
  exact length_le_of_wait awaits.within awaits.waits

/-- Only the payload of the buffer matters. -/
theorem Awaits.withRbuf {rbuf : FkBuf} (awaits : Awaits conn stream request)
    (same : rbuf.payload = conn.rbuf.payload) :
    Awaits { conn with rbuf := rbuf } stream request := by
  refine ⟨awaits.shows.withRbuf rbuf, awaits.within, ?_, ?_⟩
  · change requestMachine.step request rbuf.payload = .wait
    rw [same]
    exact awaits.waits
  · change ∃ requests, requestMachine.run request (rbuf.payload ++ stream) = _
    rw [same]
    exact awaits.stream

theorem FkBuf.Sized.of_frame {buf after : FkBuf} (sized : buf.Sized)
    (same : after.frame = buf.frame) : after.Sized := by
  simp only [frame, Prod.mk.injEq] at same
  obtain ⟨highwat, initLen, len, _⟩ := same
  refine ⟨highwat.trans sized.highwat, initLen.trans sized.initLen, ?_⟩
  rw [len]
  exact sized.len

/-- The inner loop on more of a stream of requests: it waits for the rest, and moves only
the front of the payload. -/
theorem serve_awaits {requests : List (List Bytes)} (sized : reader.conn.rbuf.Sized)
    (shows : Shows reader.conn request) (within : request.Within)
    (streamed : requestMachine.run request (reader.conn.rbuf.payload ++ reader.stream) =
      ⟨.idle, [], requests, false⟩) :
    (reader.serve handOn).Fit ∧ (reader.serve handOn).conn.rbuf.frame = reader.conn.rbuf.frame ∧
      (reader.serve handOn).stream = reader.stream := by
  obtain ⟨fine, later⟩ := requestMachine.run_continue (congrArg Stop.failed streamed)
  have spec := reqLoop_spec handOn reader.state shows (Nat.le_refl reader.conn.rbuf.fkBufPayloadLen)
  rw [execAll_handOn] at spec
  obtain ⟨waits, shown, left⟩ := spec.settled rfl fine
  have frame := reqLoop_frame handOn reader.conn.rbuf.fkBufPayloadLen reader.conn reader.state
  have finished := later.symm.trans streamed
  have idle := congrArg Stop.state finished
  have allRead := congrArg Stop.unread finished
  have notFailed := congrArg Stop.failed finished
  refine ⟨⟨sized.of_frame frame, ⟨_, shown, run_within within, ?_, ?_⟩,
    congrArg ReadEnd.left waits⟩, frame, rfl⟩
  · change requestMachine.step _ (reqLoop handOn _ reader.conn reader.state).conn.rbuf.payload =
      .wait
    rw [left]
    exact requestMachine.step_of_run fine
  · change ∃ rest, requestMachine.run _
      ((reqLoop handOn _ reader.conn reader.state).conn.rbuf.payload ++ reader.stream) = _
    rw [left]
    exact ⟨Stop.outputs _, Stop.ext idle allRead rfl notFailed⟩

/-! ## One pass -/

/-- The window of a connection that stays open after a pass. -/
structure Passed (reader : Reader Unit) (result : RecvRt) (out : Bool × Reader Unit) : Prop where
  fit : out.2.Fit
  brims : reader.conn.rbuf.Brims (result.ready reader.stream) →
    out.1 = true ∧ out.2.conn.rbuf.len = fkBufHighwat ∧ out.2.conn.rbuf.high = fkBufHighwat
  slack : ¬ reader.conn.rbuf.Brims (result.ready reader.stream) →
    out.2.conn.rbuf.high < fkBufHighwat

/-- Nothing arrives. -/
theorem passed_again {result : RecvRt} (fit : reader.Fit)
    (spec : reader.conn.rbuf.ReadySpec (result.ready reader.stream))
    (none : min (result.ready reader.stream) reader.conn.rbuf.ready.fkBufFreeLen = 0) :
    Passed reader result (false,
      { reader with conn := { reader.conn with rbuf := reader.conn.rbuf.ready } }) := by
  obtain ⟨request, awaits⟩ := fit.awaits
  have room := spec.room
  refine ⟨⟨spec.sized, ⟨request, awaits.withRbuf reader.conn.rbuf.payload_ready⟩, fit.opened⟩,
    fun brims => ?_, fun notBrims => ?_⟩
  · have enough := (spec.brims brims).2
    omega
  · exact Nat.lt_of_le_of_lt (Nat.le_add_right _ _) (spec.slack notBrims)

/-- Bytes arrive. -/
theorem passed_filled {result : RecvRt} (fit : reader.Fit)
    (spec : reader.conn.rbuf.ReadySpec (result.ready reader.stream)) {recvLen : Nat}
    {filled : Reader Unit}
    (taken : recvLen = min (result.ready reader.stream) reader.conn.rbuf.ready.fkBufFreeLen)
    (fills : filled = { reader with
      conn := { reader.conn with
        rbuf := reader.conn.rbuf.ready.append (reader.stream.take recvLen) }
      stream := reader.stream.drop recvLen }) :
    Passed reader result (Reader.handle handOn
      (if recvLen < reader.conn.rbuf.ready.fkBufFreeLen then .done else .ok) filled) := by
  obtain ⟨request, awaits⟩ := fit.awaits
  obtain ⟨requests, streamed⟩ := awaits.stream
  have held : recvLen ≤ reader.stream.length := by
    refine Nat.le_trans (taken ▸ Nat.min_le_left _ _) ?_
    unfold RecvRt.ready
    split
    · exact Nat.min_le_right _ _
    · exact Nat.zero_le _
  have length : (reader.stream.take recvLen).length = recvLen := List.length_take_of_le held
  have fits : (reader.stream.take recvLen).length ≤ reader.conn.rbuf.ready.fkBufFreeLen := by
    rw [length, taken]
    exact Nat.min_le_right _ _
  have payload : filled.conn.rbuf.payload = reader.conn.rbuf.payload ++
      reader.stream.take recvLen := by
    rw [fills]
    exact (FkBuf.payload_append fits).trans (congrArg (· ++ _) reader.conn.rbuf.payload_ready)
  have high : filled.conn.rbuf.high = reader.conn.rbuf.ready.high + recvLen := by
    rw [fills]
    exact (FkBuf.append_high fits).trans (congrArg (_ + ·) length)
  have len : filled.conn.rbuf.len = reader.conn.rbuf.ready.len := by
    rw [fills]
    rfl
  have sized : filled.conn.rbuf.Sized := by
    rw [fills]
    exact ⟨spec.sized.highwat, spec.sized.initLen, spec.sized.len⟩
  have shows : Shows filled.conn request := by
    rw [fills]
    exact awaits.shows.withRbuf _
  have rest : requestMachine.run request (filled.conn.rbuf.payload ++ filled.stream) =
      ⟨.idle, [], requests, false⟩ := by
    rw [payload, List.append_assoc, fills]
    change requestMachine.run request
      (_ ++ (reader.stream.take recvLen ++ reader.stream.drop recvLen)) = _
    rw [List.take_append_drop]
    exact streamed
  obtain ⟨served, frame, _⟩ := serve_awaits sized shows awaits.within rest
  simp only [FkBuf.frame, Prod.mk.injEq] at frame
  obtain ⟨_, _, servedLen, servedHigh⟩ := frame
  rw [len] at servedLen
  rw [high] at servedHigh
  -- the connection is the same whichever code is returned
  have after : (Reader.handle handOn
      (if recvLen < reader.conn.rbuf.ready.fkBufFreeLen then .done else .ok) filled).2 =
        filled.serve handOn := by
    split <;> rfl
  refine ⟨after ▸ served, fun brims => ?_, fun notBrims => ?_⟩
  · obtain ⟨longest, enough⟩ := spec.brims brims
    have whole : recvLen = reader.conn.rbuf.ready.fkBufFreeLen :=
      taken.trans (Nat.min_eq_right enough)
    have highLe := reader.conn.rbuf.ready.high_le
    have free : reader.conn.rbuf.ready.fkBufFreeLen =
        reader.conn.rbuf.ready.len - reader.conn.rbuf.ready.high := rfl
    refine ⟨?_, ?_, ?_⟩
    · rw [whole, if_neg (Nat.lt_irrefl _)]
      exact decide_eq_true served.opened
    · rw [after, servedLen]
      exact longest
    · rw [after, servedHigh]
      omega
  · have slack := spec.slack notBrims
    rw [after, servedHigh, taken]
    exact slack

/-- A pass loses the connection or leaves it fit for the next one. -/
theorem pass_fit (result : RecvRt) (fit : reader.Fit)
    (slack : reader.conn.rbuf.high < fkBufHighwat) :
    (¬ reader.conn.rbuf.Brims (result.ready reader.stream) ∧ (reader.pass handOn result).1 = false ∧
      (reader.pass handOn result).2.ending = .lost) ∨
      Passed reader result (reader.pass handOn result) := by
  obtain ⟨request, awaits⟩ := fit.awaits
  have spec : reader.conn.rbuf.ReadySpec (result.ready reader.stream) :=
    readySpec fit.sized awaits.short slack
  have received : fkConnRecvData result reader.conn reader.stream = _ :=
    if_neg (Nat.ne_of_gt spec.room)
  unfold Reader.pass
  rw [received]
  by_cases lost : result = .closed ∨ result = .error
  · rw [if_pos lost]
    refine .inl ⟨fun brims => ?_, rfl, rfl⟩
    have enough : fkBufHighwat ≤ reader.conn.rbuf.high + result.ready reader.stream := brims.2
    rcases lost with rfl | rfl
    · exact Nat.not_le.mpr slack enough
    · exact Nat.not_le.mpr slack enough
  · rw [if_neg lost]
    refine .inr ?_
    dsimp only
    by_cases none : min (result.ready reader.stream) reader.conn.rbuf.ready.fkBufFreeLen = 0
    · rw [if_pos none]
      exact passed_again fit spec none
    · rw [if_neg none]
      exact passed_filled fit spec rfl rfl

/-- A buffer that is full at its largest length stays so. -/
theorem pass_full (result : RecvRt) (fit : reader.Fit)
    (largest : reader.conn.rbuf.len = fkBufHighwat)
    (filled : reader.conn.rbuf.high = fkBufHighwat) :
    (reader.pass handOn result).1 = false ∧ (reader.pass handOn result).2.ending = .full := by
  obtain ⟨request, awaits⟩ := fit.awaits
  have free : reader.conn.rbuf.ready.fkBufFreeLen = 0 := by
    rw [ready_largest fit.sized awaits.short largest]
    unfold FkBuf.fkBufFreeLen
    omega
  have received : fkConnRecvData result reader.conn reader.stream = _ := if_pos free
  unfold Reader.pass
  rw [received]
  exact ⟨rfl, rfl⟩

/-! ## Runs -/

theorem passes_full (results : List RecvRt) (fit : reader.Fit)
    (largest : reader.conn.rbuf.len = fkBufHighwat)
    (filled : reader.conn.rbuf.high = fkBufHighwat) :
    (reader.passes handOn results).ending = .full := by
  cases results with
  | nil => exact (pass_full .again fit largest filled).2
  | cons result rest =>
      obtain ⟨stops, full⟩ := pass_full result fit largest filled
      rw [Reader.passes]
      dsimp only
      rw [stops, if_neg Bool.false_ne_true]
      exact full

/-- Without bytes in the socket a buffer that has room does not brim over. -/
theorem not_brims_again (slack : reader.conn.rbuf.high < fkBufHighwat) :
    ¬ reader.conn.rbuf.Brims (RecvRt.again.ready reader.stream) :=
  fun brims => Nat.not_le.mpr slack brims.2

/-- A spared connection is lost or fit for the next callback. -/
theorem passes_fit {results : List RecvRt} (fit : reader.Fit)
    (slack : reader.conn.rbuf.high < fkBufHighwat) (spared : reader.Spared results) :
    (reader.passes handOn results).ending = .lost ∨
      (reader.passes handOn results).Fit ∧
        (reader.passes handOn results).conn.rbuf.high < fkBufHighwat := by
  induction results generalizing reader with
  | nil =>
      rcases pass_fit .again fit slack with ⟨_, _, lost⟩ | passed
      · exact .inl lost
      · exact .inr ⟨passed.fit, passed.slack (not_brims_again slack)⟩
  | cons result rest ih =>
      obtain ⟨notBrims, later⟩ := spared
      rw [Reader.passes]
      dsimp only
      rcases pass_fit result fit slack with ⟨_, stops, lost⟩ | passed
      · rw [stops, if_neg Bool.false_ne_true]
        exact .inl lost
      · split
        · next again => exact ih passed.fit (passed.slack notBrims) (later again)
        · exact .inr ⟨passed.fit, passed.slack notBrims⟩

/-- A connection that is not spared is removed for a full buffer. -/
theorem passes_brims {results : List RecvRt} (fit : reader.Fit)
    (slack : reader.conn.rbuf.high < fkBufHighwat)
    (brims : ¬ reader.Spared results) : (reader.passes handOn results).ending = .full := by
  induction results generalizing reader with
  | nil => exact (brims trivial).elim
  | cons result rest ih =>
      rw [Reader.passes]
      dsimp only
      by_cases here : reader.conn.rbuf.Brims (result.ready reader.stream)
      · rcases pass_fit result fit slack with ⟨notBrims, _, _⟩ | passed
        · exact (notBrims here).elim
        · obtain ⟨again, largest, filled⟩ := passed.brims here
          rw [if_pos again]
          exact passes_full rest passed.fit largest filled
      · have later : ¬ ((reader.pass handOn result).1 = true →
            (reader.pass handOn result).2.Spared rest) :=
          fun later => brims ⟨here, later⟩
        obtain ⟨again, unspared⟩ := Classical.not_imp.mp later
        rcases pass_fit result fit slack with ⟨_, stops, _⟩ | passed
        · rw [stops] at again
          cases again
        · rw [if_pos again]
          exact ih passed.fit (passed.slack here) unspared

/-- The end of a callback. -/
theorem shrink_fit (fit : reader.Fit) (slack : reader.conn.rbuf.high < fkBufHighwat) :
    reader.shrink.Fit ∧ reader.shrink.conn.rbuf.high < fkBufHighwat := by
  obtain ⟨request, awaits⟩ := fit.awaits
  refine ⟨⟨?_, ⟨request, awaits.withRbuf (FkBuf.payload_fkBufShrink _)⟩, fit.opened⟩, ?_⟩
  · change (reader.conn.rbuf.fkBufShrink).Sized
    unfold FkBuf.fkBufShrink
    split
    · refine ⟨?_, ?_, 0, Nat.zero_le _, ?_⟩
      · exact (FkBuf.fkBufShift_highwat _).trans fit.sized.highwat
      · exact (FkBuf.fkBufShift_initLen _).trans fit.sized.initLen
      · exact fit.sized.initLen
    · exact fit.sized
  · change (reader.conn.rbuf.fkBufShrink).high < fkBufHighwat
    unfold FkBuf.fkBufShrink
    split
    · exact (FkBuf.fkBufShift_high _) ▸ Nat.lt_of_le_of_lt (Nat.sub_le _ _) slack
    · exact slack

theorem fkConnReadCb_fit {results : List RecvRt} (fit : reader.Fit)
    (slack : reader.conn.rbuf.high < fkBufHighwat) (spared : reader.Spared results) :
    (fkConnReadCb handOn results reader).ending = .lost ∨
      (fkConnReadCb handOn results reader).Fit ∧
        (fkConnReadCb handOn results reader).conn.rbuf.high < fkBufHighwat := by
  unfold fkConnReadCb
  dsimp only
  rcases passes_fit fit slack spared with lost | ⟨after, room⟩
  · rw [lost, if_neg ReadEnd.noConfusion]
    exact .inl lost
  · rw [if_pos after.opened]
    exact .inr (shrink_fit after room)

theorem fkConnReadCb_full {results : List RecvRt}
    (full : (reader.passes handOn results).ending = .full) :
    (fkConnReadCb handOn results reader).ending = .full := by
  unfold fkConnReadCb
  dsimp only
  rw [full, if_neg ReadEnd.noConfusion]
  exact full

theorem readAll_full_iff {callbacks : List (List RecvRt)} (fit : reader.Fit)
    (slack : reader.conn.rbuf.high < fkBufHighwat) :
    (reader.readAll handOn callbacks).ending = .full ↔ ¬ reader.SparedAll callbacks := by
  induction callbacks generalizing reader with
  | nil =>
      refine iff_of_false (fun full => ?_) (fun brims => brims trivial)
      rw [Reader.readAll, fit.opened] at full
      cases full
  | cons results rest ih =>
      rw [Reader.readAll, Reader.SparedAll]
      by_cases spared : reader.Spared results
      · rw [and_iff_right spared]
        rcases fkConnReadCb_fit fit slack spared with lost | ⟨after, room⟩
        · rw [lost, if_neg ReadEnd.noConfusion, lost]
          refine iff_of_false ReadEnd.noConfusion fun brims => brims fun waits => ?_
          cases waits
        · rw [if_pos after.opened, ih after room, forall_prop_of_true after.opened]
      · have full := fkConnReadCb_full (passes_brims fit slack spared)
        rw [full, if_neg ReadEnd.noConfusion]
        exact iff_of_true full fun both => spared both.1

end Serve

theorem start_fit (maxWbuf : Nat) {requests : List (List Bytes)}
    (admissible : ∀ args ∈ requests, Admissible args) :
    (Reader.start maxWbuf () (encAll requests)).Fit where
  sized := ⟨rfl, rfl, 0, Nat.zero_le _, rfl⟩
  awaits := ⟨.idle, fkConnCreate_shows .real maxWbuf, trivial, requestMachine.idle _, requests,
    run_encAll admissible⟩
  opened := rfl

/-- On a stream of well-formed requests, however it is received, no commands ever meet a
read buffer without room exactly when no `recv` finds one that brims over. -/
theorem fkConnReadCb_never_full_iff {requests : List (List Bytes)}
    (admissible : ∀ args ∈ requests, Admissible args)
    (maxWbuf : Nat) (callbacks : List (List RecvRt)) :
    (∀ (σ : Type) (proc : Proc σ) (state : σ),
      ((Reader.start maxWbuf state (encAll requests)).readAll proc callbacks).ending ≠ .full) ↔
      (Reader.start maxWbuf () (encAll requests)).SparedAll callbacks := by
  have full := @readAll_full_iff _ callbacks (start_fit maxWbuf admissible)
    (show 0 < fkBufHighwat by decide)
  constructor
  · intro never
    exact Decidable.of_not_not fun brims => never Unit handOn () (full.mpr brims)
  · intro spared σ proc state ending
    exact full.mp (Reader.readAll_full ending) spared

/-- One request in two pieces, with a callback for each. -/
theorem fkConnReadCb_never_full_ping :
    ((Reader.start 4096 () (encAll [[[80, 73, 78, 71]]])).readAll handOn
      [[.holds 3], [.holds 99, .again]]).ending ≠ .full :=
  (fkConnReadCb_never_full_iff (by decide) 4096 _).mpr (by decide) Unit handOn ()

/-! ## A stream that fills the buffer -/

/-- `SET k` with a value of `size` bytes. -/
def setRequest (size : Nat) : List Bytes := [[83, 69, 84], [107], List.replicate size 120]

theorem length_enc_setRequest (size : Nat) :
    (enc (setRequest size)).length = size + (decimal size).length + 25 := by
  have three : (decimal 3).length = 1 := by decide
  have one : (decimal 1).length = 1 := by decide
  unfold enc encArgs setRequest encArg
  simp only [List.map_cons, List.map_nil, List.flatten_cons, List.flatten_nil, List.length_cons,
    List.length_append, List.length_nil, List.length_replicate, three, one]
  omega

theorem setRequest_admissible {size : Nat} (small : size ≤ fkArgHighwat) :
    Admissible (setRequest size) := by
  refine ⟨show 1 ≤ 3 by decide, show 3 ≤ 128 by decide, ?_⟩
  intro arg member
  simp only [setRequest, List.mem_cons, List.not_mem_nil, or_false] at member
  rcases member with rfl | rfl | rfl
  · decide
  · decide
  · rw [List.length_replicate]
    exact small

/-- Chunks of requests of `len`, `2 * len`, `4 * len` … bytes. -/
def Doubling : Nat → List (List (List Bytes)) → Prop
  | _, [] => True
  | len, chunk :: rest =>
      (encAll chunk).length = len ∧ (∀ args ∈ chunk, Admissible args) ∧ Doubling (2 * len) rest

/-- A connection between two requests, without payload. -/
structure Blank (reader : Reader Unit) : Prop where
  shows : Shows reader.conn .idle
  payload : reader.conn.rbuf.payload = []
  highwat : reader.conn.rbuf.highwat = fkBufHighwat
  opened : reader.ending = .left .waits

section Fill

variable {reader : Reader Unit}

/-- Whole requests that fill the room. -/
theorem pass_chunk {chunk : List (List Bytes)} {rest : Bytes} {held : Nat} (blank : Blank reader)
    (admissible : ∀ args ∈ chunk, Admissible args) (stream : reader.stream = encAll chunk ++ rest)
    (fills : (encAll chunk).length = reader.conn.rbuf.ready.fkBufFreeLen)
    (room : 0 < reader.conn.rbuf.ready.fkBufFreeLen) (enough : (encAll chunk).length ≤ held + 1) :
    (reader.pass handOn (.holds held)).1 = true ∧ Blank (reader.pass handOn (.holds held)).2 ∧
      (reader.pass handOn (.holds held)).2.stream = rest ∧
      (reader.pass handOn (.holds held)).2.conn.rbuf.len = reader.conn.rbuf.ready.len ∧
      (reader.pass handOn (.holds held)).2.conn.rbuf.high = reader.conn.rbuf.ready.len := by
  have recvLen : min ((RecvRt.holds held).ready reader.stream) reader.conn.rbuf.ready.fkBufFreeLen =
      (encAll chunk).length := by
    change min (min (held + 1) reader.stream.length) _ = _
    rw [stream, List.length_append]
    omega
  have taken : reader.stream.take (encAll chunk).length = encAll chunk :=
    by rw [stream, List.take_left]
  have dropped : reader.stream.drop (encAll chunk).length = rest := by rw [stream, List.drop_left]
  have received : fkConnRecvData (.holds held) reader.conn reader.stream =
      (.ok, { reader.conn with rbuf := reader.conn.rbuf.ready.append (encAll chunk) }, rest) := by
    unfold fkConnRecvData
    dsimp only
    rw [if_neg (Nat.ne_of_gt room),
      if_neg (fun lost => lost.elim RecvRt.noConfusion RecvRt.noConfusion), recvLen,
      if_neg (by omega), if_neg (by omega), taken, dropped]
  have fits : (encAll chunk).length ≤ reader.conn.rbuf.ready.fkBufFreeLen := Nat.le_of_eq fills
  have payload : (reader.conn.rbuf.ready.append (encAll chunk)).payload = encAll chunk := by
    rw [FkBuf.payload_append fits, FkBuf.payload_ready, blank.payload, List.nil_append]
  let filled : FkConnIn := { reader.conn with rbuf := reader.conn.rbuf.ready.append (encAll chunk) }
  have shows : Shows filled .idle := blank.shows.withRbuf _
  have spec := reqLoop_spec handOn reader.state shows (Nat.le_refl filled.rbuf.fkBufPayloadLen)
  have frame := reqLoop_frame handOn filled.rbuf.fkBufPayloadLen filled reader.state
  rw [execAll_handOn, show filled.rbuf.payload = encAll chunk from payload,
    run_encAll admissible] at spec
  obtain ⟨waits, shown, left⟩ := spec.settled rfl rfl
  simp only [FkBuf.frame, Prod.mk.injEq] at frame
  obtain ⟨highwat, _, len, high⟩ := frame
  have highLe := reader.conn.rbuf.ready.high_le
  have free : reader.conn.rbuf.ready.fkBufFreeLen =
      reader.conn.rbuf.ready.len - reader.conn.rbuf.ready.high := rfl
  have filledHigh : filled.rbuf.high = reader.conn.rbuf.ready.len := by
    refine (FkBuf.append_high fits).trans ?_
    omega
  unfold Reader.pass
  rw [received]
  exact ⟨decide_eq_true (congrArg ReadEnd.left waits),
    ⟨shown, left, highwat.trans ((FkBuf.ready_highwat _).trans blank.highwat),
      congrArg ReadEnd.left waits⟩, rfl, len, high.trans filledHigh⟩

theorem Blank.ready_of_full (blank : Blank reader)
    (full : reader.conn.rbuf.high = reader.conn.rbuf.len) :
    reader.conn.rbuf.ready = reader.conn.rbuf.fkBufStretch := by
  have left : reader.conn.rbuf.fkBufPayloadLen = 0 := (FkBuf.payload_eq_nil_iff _).mp blank.payload
  have kept : reader.conn.rbuf.moved = reader.conn.rbuf := by
    refine if_neg ?_
    rw [left]
    exact Nat.not_lt_zero _
  unfold FkBuf.ready FkBuf.fkBufFreeLen
  rw [kept, full, if_pos (Nat.sub_self _)]

/-- A blank connection with a full buffer, on requests that fill it again and again, meets
the end of the largest buffer. -/
theorem passes_doubling {chunks : List (List (List Bytes))} (blank : Blank reader)
    (full : reader.conn.rbuf.high = reader.conn.rbuf.len)
    (doubling : Doubling reader.conn.rbuf.len chunks)
    (stream : reader.stream = encAll chunks.flatten)
    (total : reader.conn.rbuf.len * 2 ^ chunks.length = fkBufHighwat) :
    (reader.passes handOn (List.replicate chunks.length (.holds fkBufHighwat))).ending = .full := by
  have ready := blank.ready_of_full full
  induction chunks generalizing reader with
  | nil =>
      rw [List.length_nil, pow_zero, Nat.mul_one] at total
      have stuck : reader.conn.rbuf.ready.fkBufFreeLen = 0 := by
        rw [ready, FkBuf.fkBufStretch, if_neg (by rw [blank.highwat]; omega)]
        unfold FkBuf.fkBufFreeLen
        omega
      have received : fkConnRecvData .again reader.conn reader.stream = _ := if_pos stuck
      rw [List.length_nil, List.replicate_zero, Reader.passes, Reader.pass, received]
      rfl
  | cons chunk rest ih =>
      obtain ⟨length, admissible, later⟩ := doubling
      have twice : 2 * reader.conn.rbuf.len * 2 ^ rest.length = fkBufHighwat := by
        rw [← total, List.length_cons, pow_succ]
        ring
      have positive : 0 < reader.conn.rbuf.len := by
        refine Nat.pos_of_ne_zero fun zero => ?_
        rw [zero, Nat.mul_zero, Nat.zero_mul] at twice
        cases twice
      have small : 2 * reader.conn.rbuf.len ≤ fkBufHighwat :=
        Nat.le_trans (Nat.le_mul_of_pos_right _ (Nat.two_pow_pos _)) (Nat.le_of_eq twice)
      obtain ⟨stretchedLen, stretchedHigh, _, _⟩ :=
        FkBuf.fkBufStretch_len (show reader.conn.rbuf.len < reader.conn.rbuf.highwat by
          rw [blank.highwat]; omega)
      rw [← ready] at stretchedLen stretchedHigh
      have free : reader.conn.rbuf.ready.fkBufFreeLen = reader.conn.rbuf.len := by
        unfold FkBuf.fkBufFreeLen
        omega
      rw [List.flatten_cons, encAll, List.flatMap_append] at stream
      obtain ⟨again, blankAfter, streamAfter, lenAfter, highAfter⟩ :=
        pass_chunk blank admissible stream
          (length.trans free.symm) (by omega)
            (show (encAll chunk).length ≤ fkBufHighwat + 1 by omega)
      rw [List.length_cons, List.replicate_succ, Reader.passes]
      dsimp only
      rw [if_pos again]
      have fullAfter := highAfter.trans lenAfter.symm
      refine ih blankAfter fullAfter ?_ streamAfter ?_ (blankAfter.ready_of_full fullAfter)
      · rw [lenAfter, stretchedLen]
        exact later
      · rw [lenAfter, stretchedLen]
        exact twice

/-- The same from a blank connection whose first request fills the buffer. -/
theorem readAll_doubling {chunk : List (List Bytes)} {chunks : List (List (List Bytes))}
    (blank : Blank reader) (admissible : ∀ args ∈ chunk, Admissible args)
    (stream : reader.stream = encAll chunk ++ encAll chunks.flatten)
    (fills : (encAll chunk).length = reader.conn.rbuf.ready.fkBufFreeLen)
    (doubling : Doubling reader.conn.rbuf.ready.len chunks)
    (total : reader.conn.rbuf.ready.len * 2 ^ chunks.length = fkBufHighwat)
    (nonempty : 0 < (encAll chunk).length) :
    (reader.readAll handOn [List.replicate (chunks.length + 1) (.holds fkBufHighwat)]).ending =
      .full := by
  have free : reader.conn.rbuf.ready.fkBufFreeLen ≤ reader.conn.rbuf.ready.len := Nat.sub_le _ _
  have small : reader.conn.rbuf.ready.len ≤ fkBufHighwat :=
    Nat.le_trans (Nat.le_mul_of_pos_right _ (Nat.two_pow_pos _)) (Nat.le_of_eq total)
  obtain ⟨again, blankAfter, streamAfter, lenAfter, highAfter⟩ :=
    pass_chunk blank admissible stream fills (by omega)
      (show (encAll chunk).length ≤ fkBufHighwat + 1 by omega)
  have full : (reader.passes handOn
      (List.replicate (chunks.length + 1) (.holds fkBufHighwat))).ending = .full := by
    rw [List.replicate_succ, Reader.passes]
    dsimp only
    rw [if_pos again]
    refine passes_doubling blankAfter (highAfter.trans lenAfter.symm) ?_ streamAfter ?_
    · rw [lenAfter]
      exact doubling
    · rw [lenAfter]
      exact total
  rw [Reader.readAll, fkConnReadCb_full full, if_neg ReadEnd.noConfusion]
  exact fkConnReadCb_full full

end Fill

/-- A request of 16 bytes: a command without its argument. -/
def existsRequest : List Bytes := [[69, 88, 73, 83, 84, 83]]

/-- The values of `SET` requests of 32, 64, … and `2 ^ 20` bytes. -/
def setSizes : List Nat :=
  [6, 37, 100, 228, 484, 996, 2019, 4067, 8163, 16354, 32738, 65506, 131041, 262113,
    524257, 1048544]

/-- Requests of 16, 32, … and `2 ^ 21` bytes, the last ones in two halves. -/
def fillChunks : List (List (List Bytes)) :=
  [existsRequest] :: (setSizes.map fun size => [setRequest size]) ++
    [[setRequest 1048544, setRequest 1048544]]

theorem doubling_set {len size : Nat} {rest : List (List (List Bytes))}
    (small : size ≤ fkArgHighwat) (length : size + (decimal size).length + 25 = len)
    (later : Doubling (2 * len) rest) :
    Doubling len ([setRequest size] :: rest) := by
  refine ⟨?_, ?_, later⟩
  · rw [← length, ← length_enc_setRequest]
    exact congrArg List.length (List.append_nil _)
  · intro args member
    rw [List.mem_singleton.mp member]
    exact setRequest_admissible small

theorem fillChunks_doubling : Doubling fkBufInitLen fillChunks := by
  refine ⟨by decide, by decide, ?_⟩
  repeat' refine doubling_set (by decide) (by decide) ?_
  refine ⟨?_, ?_, trivial⟩
  · have half := length_enc_setRequest 1048544
    have both : encAll [setRequest 1048544, setRequest 1048544] = enc (setRequest 1048544) ++ enc
        (setRequest 1048544) :=
      congrArg (_ ++ ·) (List.append_nil _)
    rw [both, List.length_append, half]
    decide
  · intro args member
    rw [List.eq_of_mem_replicate (show args ∈ List.replicate 2 (setRequest 1048544) from member)]
    exact setRequest_admissible (by decide)

theorem doubling_admissible {len : Nat} {chunks : List (List (List Bytes))}
    (doubling : Doubling len chunks) :
    ∀ args ∈ chunks.flatten, Admissible args := by
  induction chunks generalizing len with
  | nil => nofun
  | cons chunk rest ih =>
      obtain ⟨_, here, there⟩ := doubling
      intro args member
      rcases List.mem_append.mp member with inChunk | inRest
      · exact here args inChunk
      · exact ih there args inRest

/-- Twenty requests, received in one callback from a socket that always has more than the
buffer takes: the connection is removed for a full buffer. -/
theorem fkConnReadCb_meets_full :
    (∀ args ∈ existsRequest :: fillChunks.flatten, Admissible args) ∧
      ((Reader.start 4096 () (encAll (existsRequest :: fillChunks.flatten))).readAll handOn
        [List.replicate (fillChunks.length + 1) (.holds fkBufHighwat)]).ending = .full := by
  refine ⟨List.forall_mem_cons.mpr ⟨by decide, doubling_admissible fillChunks_doubling⟩, ?_⟩
  have blank : Blank (Reader.start 4096 () (encAll (existsRequest :: fillChunks.flatten))) :=
    ⟨fkConnCreate_shows .real 4096, rfl, rfl, rfl⟩
  have fresh : (fkBufCreate fkBufInitLen fkBufHighwat).ready.len = fkBufInitLen := by decide
  refine @readAll_doubling _ [existsRequest] fillChunks blank (by decide)
    (congrArg (· ++ _) (List.append_nil (enc existsRequest)).symm) ?_ ?_ ?_ (by decide)
  · change _ = (fkBufCreate fkBufInitLen fkBufHighwat).ready.fkBufFreeLen
    decide
  · change Doubling (fkBufCreate fkBufInitLen fkBufHighwat).ready.len fillChunks
    rw [fresh]
    exact fillChunks_doubling
  · change (fkBufCreate fkBufInitLen fkBufHighwat).ready.len * 2 ^ fillChunks.length = fkBufHighwat
    rw [fresh]
    decide

end Freekick
