import Freekick.Net.Receive

/-!
# What a read callback does

Whatever `recv` returns and however often it is called, a read callback takes some bytes off
the stream and runs the requests that they complete, one after the other and up to the first
that fails.  The connection is left as the request machine is, or it is given up.
-/

namespace Freekick

open Lib.Resume

variable {σ : Type} {proc : Proc σ}

/-- The commands of the requests that are completed by some bytes. -/
abbrev execStop (proc : Proc σ) (state : σ) (stop : Stop UInt8 Request (List Bytes)) :
    σ × List (List Bytes) × LoopEnd := execAll proc state stop.outputs

/-- A reader between two passes: the machine has nothing left to do. -/
structure Reader.Rests (reader : Reader σ) (request : Request) : Prop where
  shows : Shows reader.conn request
  waits : requestMachine.step request reader.conn.rbuf.payload = .wait
  opened : reader.ending = .left .waits

/-- What `taken` bytes make of a reader that rests.  The machine stops in `stop`. -/
structure Serves (proc : Proc σ) (before : Reader σ) (taken : Bytes)
    (stop : Stop UInt8 Request (List Bytes)) (after : Reader σ) : Prop where
  stream : before.stream = taken ++ after.stream
  state : after.state = (execStop proc before.state stop).1
  stopped : (execStop proc before.state stop).2.2 ≠ .waits →
    after.ending = .left (execStop proc before.state stop).2.2
  failed : (execStop proc before.state stop).2.2 = .waits → stop.failed = true →
    after.ending = .left .closes
  settled : (execStop proc before.state stop).2.2 = .waits → stop.failed = false →
    Shows after.conn stop.state ∧ after.conn.rbuf.payload = stop.unread ∧
      (after.ending = .left .waits ∨ after.ending = .full ∨ after.ending = .lost)

namespace Serves

variable {before middle after : Reader σ} {taken more : Bytes}
  {first second whole : Stop UInt8 Request (List Bytes)}

/-- A reader that stays open has run all its requests. -/
theorem opened (serves : Serves proc before taken first after)
    (waits : after.ending = .left .waits) :
    (execStop proc before.state first).2.2 = .waits ∧ first.failed = false := by
  have ran : (execStop proc before.state first).2.2 = .waits := by
    refine Decidable.of_not_not fun stops => ?_
    rw [serves.stopped stops] at waits
    exact stops (ReadEnd.left.inj waits)
  refine ⟨ran, Bool.eq_false_iff.mpr fun fails => ?_⟩
  rw [serves.failed ran fails] at waits
  cases waits

theorem rests (serves : Serves proc before taken first after) (waits : after.ending = .left .waits)
    (run : ∃ request payload, first = requestMachine.run request payload) :
    after.Rests first.state := by
  obtain ⟨ran, fine⟩ := serves.opened waits
  obtain ⟨shows, left, _⟩ := serves.settled ran fine
  obtain ⟨request, payload, rfl⟩ := run
  refine ⟨shows, ?_, waits⟩
  rw [left]
  exact requestMachine.step_of_run fine

/-- The same bytes under a machine that stops alike. -/
theorem same (serves : Serves proc before taken first after) (alike : first.Same second) :
    Serves proc before taken second after := by
  have outputs : execStop proc before.state first = execStop proc before.state second :=
    congrArg (execAll proc before.state) alike.outputs
  refine ⟨serves.stream, ?_, ?_, ?_, ?_⟩
  · rw [← outputs]
    exact serves.state
  · rw [← outputs]
    exact serves.stopped
  · rw [← outputs, ← alike.failed]
    exact serves.failed
  · rw [← outputs, ← alike.failed]
    intro ran fine
    obtain ⟨states, unread⟩ := alike.settled fine
    rw [← states, ← unread]
    exact serves.settled ran fine

/-- Two parts of a callback make one. -/
theorem trans (early : Serves proc before taken first middle) (waits : middle.ending = .left .waits)
    (late : Serves proc middle more second after) :
    Serves proc before (taken ++ more) (second.after first.outputs) after := by
  obtain ⟨ran, fine⟩ := early.opened waits
  have both : execStop proc before.state (second.after first.outputs) =
      ((execStop proc middle.state second).1, (execStop proc before.state first).2.1 ++
        (execStop proc middle.state second).2.1, (execStop proc middle.state second).2.2) := by
    rw [execStop, Stop.after, execAll_append, if_pos ran, ← early.state]
  have ends : (execStop proc before.state (second.after first.outputs)).2.2 =
      (execStop proc middle.state second).2.2 := by
    rw [both]
  refine ⟨?_, ?_, ?_, ?_, ?_⟩
  · rw [early.stream, late.stream, List.append_assoc]
  · rw [both]
    exact late.state
  · rw [ends]
    exact late.stopped
  · rw [ends]
    exact late.failed
  · rw [ends]
    exact late.settled

end Serves

/-! ## One pass -/

section Pass

variable {reader : Reader σ} {request : Request} {result : RecvRt}

/-- Nothing was received. -/
theorem serves_nothing {after : Reader σ} (rests : reader.Rests request)
    (stream : after.stream = reader.stream) (state : after.state = reader.state)
    (shows : Shows after.conn request)
    (payload : after.conn.rbuf.payload = reader.conn.rbuf.payload)
    (ending : after.ending = .left .waits ∨ after.ending = .full ∨ after.ending = .lost) :
    Serves proc reader [] (requestMachine.run request (reader.conn.rbuf.payload ++ [])) after := by
  rw [List.append_nil, requestMachine.run_wait rests.waits]
  exact ⟨stream.symm, state, fun stops => (stops rfl).elim,
    fun _ fails => (Bool.false_ne_true fails).elim, fun _ _ => ⟨shows, payload, ending⟩⟩

/-- Bytes were received and the inner loop has run. -/
theorem serves_taken {taken rest : Bytes} {conn : FkConnIn} (shows : Shows conn request)
    (stream : reader.stream = taken ++ rest)
    (payload : conn.rbuf.payload = reader.conn.rbuf.payload ++ taken) :
    Serves proc reader taken (requestMachine.run request (reader.conn.rbuf.payload ++ taken))
      (Reader.serve proc { reader with conn := conn, stream := rest }) := by
  have spec := reqLoop_spec proc reader.state shows (Nat.le_refl _)
  rw [payload] at spec
  refine ⟨stream, spec.state, ?_, ?_, ?_⟩
  · intro stops
    exact congrArg ReadEnd.left (spec.stopped stops)
  · intro waits failed
    exact congrArg ReadEnd.left (spec.failed waits failed)
  · intro waits fine
    obtain ⟨ends, shown, left⟩ := spec.settled waits fine
    exact ⟨shown, left, .inl (congrArg ReadEnd.left ends)⟩

theorem pass_serves (rests : reader.Rests request) (result : RecvRt) :
    ∃ taken, Serves proc reader taken
      (requestMachine.run request (reader.conn.rbuf.payload ++ taken))
      (reader.pass proc result).2 := by
  have ready : reader.conn.rbuf.ready.payload = reader.conn.rbuf.payload :=
    reader.conn.rbuf.payload_ready
  have shows := rests.shows.withRbuf reader.conn.rbuf.ready
  unfold Reader.pass fkConnRecvData
  dsimp only
  split
  · exact ⟨[], serves_nothing rests rfl rfl shows ready (.inr (.inl rfl))⟩
  · split
    · exact ⟨[], serves_nothing rests rfl rfl shows ready (.inr (.inr rfl))⟩
    · split
      · exact ⟨[], serves_nothing rests rfl rfl shows ready (.inl rests.opened)⟩
      · -- The inner loop runs on what was received, whether the buffer is full now or not.
        generalize count : min (result.ready reader.stream)
          reader.conn.rbuf.ready.fkBufFreeLen = recvLen
        have room : (reader.stream.take recvLen).length ≤ reader.conn.rbuf.ready.fkBufFreeLen := by
          rw [List.length_take, ← count]
          omega
        have payload := FkBuf.payload_append room
        rw [ready] at payload
        have served := @serves_taken σ proc reader request (reader.stream.take recvLen)
          (reader.stream.drop recvLen) _
            (rests.shows.withRbuf (reader.conn.rbuf.ready.append (reader.stream.take recvLen)))
          (List.take_append_drop _ _).symm payload
        refine ⟨reader.stream.take recvLen, ?_⟩
        split
        · exact served
        · exact served

end Pass

/-! ## The whole callback -/

theorem passes_serves {reader : Reader σ} {request : Request} (rests : reader.Rests request)
    (results : List RecvRt) :
    ∃ taken, Serves proc reader taken
      (requestMachine.run request (reader.conn.rbuf.payload ++ taken))
      (reader.passes proc results) := by
  induction results generalizing reader request with
  | nil => exact pass_serves rests .again
  | cons result rest ih =>
      obtain ⟨taken, serves⟩ := @pass_serves σ proc reader request rests result
      rw [Reader.passes]
      dsimp only
      cases again : (reader.pass proc result).1 with
      | false =>
          rw [if_neg Bool.false_ne_true]
          exact ⟨taken, serves⟩
      | true =>
          rw [if_pos rfl]
          have waits := Reader.pass_again again
          obtain ⟨ran, fine⟩ := serves.opened waits
          obtain ⟨more, later⟩ := ih (serves.rests waits ⟨_, _, rfl⟩)
          rw [(serves.settled ran fine).2.1] at later
          have joined := requestMachine.run_append request (reader.conn.rbuf.payload ++ taken) more
          rw [if_neg (by rw [fine]; exact Bool.false_ne_true), List.append_assoc] at joined
          exact ⟨taken ++ more, (serves.trans waits later).same joined.symm⟩

end Freekick
