import Freekick.Net.ParseReq

/-!
# The read callback: `fk_conn_read_cb`

`fk_conn_read_cb` and `fk_blog_load` share one inner loop: parse while payload
is left, hand every complete request to `fk_conn_proc_cmd`, stop at an
incomplete one and give up at an error.  The command is a parameter here.  The
loop hands on what the request machine emits, so that on the network path the
slicing of the stream does not matter.
-/

namespace Freekick

open Lib.Resume

/-- How a loop over requests is left: to wait for more bytes, by giving up, by a crash in
a command, or by a write outside the argument vector. -/
inductive LoopEnd where
  | waits
  | closes
  | crashes
  | faults
  deriving DecidableEq, Repr

/-- The command to run on the argument slots: its return code and the state it
leaves, or `none` for a crash. -/
abbrev Proc (σ : Type) := σ → List (Option Bytes) → Option (FkRt × σ)

structure LoopResult (σ : Type) where
  conn : FkConnIn
  state : σ
  handed : List (List (Option Bytes))
  ending : LoopEnd

variable {σ : Type}

/-- The inner loop.  Every request takes at least one byte, so the payload length is
enough fuel. -/
def reqLoop (proc : Proc σ) : Nat → FkConnIn → σ → LoopResult σ
  | 0, conn, state => ⟨conn, state, [], .waits⟩
  | fuel + 1, conn, state =>
      if conn.rbuf.fkBufPayloadLen = 0 then ⟨conn, state, [], .waits⟩
      else
        match fkConnParseReq conn with
        | none => ⟨conn, state, [], .faults⟩
        | some (.err, parsed) => ⟨parsed, state, [], .closes⟩
        | some (.again, parsed) => ⟨parsed, state, [], .waits⟩
        | some (_, parsed) =>
            match proc state parsed.argSlots with
            | none => ⟨parsed, state, [parsed.argSlots], .crashes⟩
            | some (.err, after) => ⟨fkConnFreeArgs parsed, after, [parsed.argSlots], .closes⟩
            | some (_, after) =>
                let later := reqLoop proc fuel (fkConnFreeArgs parsed) after
                { later with handed := parsed.argSlots :: later.handed }

/-- Run commands one after the other, up to the first that does not succeed. -/
def execAll (proc : Proc σ) : σ → List (List Bytes) → σ × List (List Bytes) × LoopEnd
  | state, [] => (state, [], .waits)
  | state, command :: rest =>
      match proc state (command.map some) with
      | none => (state, [command], .crashes)
      | some (.err, after) => (after, [command], .closes)
      | some (_, after) =>
          let later := execAll proc after rest
          (later.1, command :: later.2.1, later.2.2)

theorem execAll_append (proc : Proc σ) (state : σ) (first second : List (List Bytes)) :
    execAll proc state (first ++ second) =
      if (execAll proc state first).2.2 = .waits then
        let later := execAll proc (execAll proc state first).1 second
        (later.1, (execAll proc state first).2.1 ++ later.2.1, later.2.2)
      else execAll proc state first := by
  induction first generalizing state with
  | nil => rfl
  | cons command rest ih =>
      rw [List.cons_append, execAll, execAll]
      cases proc state (command.map some) with
      | none => rfl
      | some pair =>
          obtain ⟨code, after⟩ := pair
          have later : ((execAll proc after (rest ++ second)).1,
              command :: (execAll proc after (rest ++ second)).2.1,
              (execAll proc after (rest ++ second)).2.2) =
              if (execAll proc after rest).2.2 = .waits then
                let later := execAll proc (execAll proc after rest).1 second
                (later.1, (command :: (execAll proc after rest).2.1) ++ later.2.1, later.2.2)
              else ((execAll proc after rest).1, command :: (execAll proc after rest).2.1,
                (execAll proc after rest).2.2) := by
            rw [ih]
            split <;> rfl
          cases code with
          | err => rfl
          | ok => exact later
          | again => exact later
          | done => exact later

/-- All commands were handed on when the last one succeeded. -/
theorem execAll_handed {proc : Proc σ} {state : σ} {commands : List (List Bytes)}
    (waits : (execAll proc state commands).2.2 = .waits) :
    (execAll proc state commands).2.1 = commands := by
  induction commands generalizing state with
  | nil => rfl
  | cons command rest ih =>
      rw [execAll] at waits ⊢
      cases ran : proc state (command.map some) with
      | none =>
          rw [ran] at waits
          cases waits
      | some pair =>
          obtain ⟨code, after⟩ := pair
          rw [ran] at waits
          cases code with
          | err => cases waits
          | ok => exact congrArg (command :: ·) (ih waits)
          | again => exact congrArg (command :: ·) (ih waits)
          | done => exact congrArg (command :: ·) (ih waits)

theorem execAll_length_le (proc : Proc σ) (state : σ) (commands : List (List Bytes)) :
    (execAll proc state commands).2.1.length ≤ commands.length := by
  induction commands generalizing state with
  | nil => exact Nat.le_refl 0
  | cons command rest ih =>
      rw [execAll]
      split
      · exact Nat.succ_le_succ (Nat.zero_le _)
      · exact Nat.succ_le_succ (Nat.zero_le _)
      · exact Nat.succ_le_succ (ih _)

/-- The first command is always handed on. -/
theorem execAll_eq_nil {proc : Proc σ} {state : σ} {commands : List (List Bytes)}
    (none : (execAll proc state commands).2.1 = []) : commands = [] := by
  cases commands with
  | nil => rfl
  | cons command rest =>
      rw [execAll] at none
      split at none
      · cases none
      · cases none
      · cases none

theorem execAll_ne_faults (proc : Proc σ) (state : σ) (commands : List (List Bytes)) :
    (execAll proc state commands).2.2 ≠ .faults := by
  induction commands generalizing state with
  | nil => exact LoopEnd.noConfusion
  | cons command rest ih =>
      rw [execAll]
      split
      · exact LoopEnd.noConfusion
      · exact LoopEnd.noConfusion
      · exact ih _

/-- What the inner loop does, told by where the request machine stops and how the
commands it emits execute. -/
structure LoopSpec (exec : σ × List (List Bytes) × LoopEnd)
    (stop : Stop UInt8 Request (List Bytes)) (result : LoopResult σ) : Prop where
  state : result.state = exec.1
  handed : result.handed = exec.2.1.map (List.map some)
  stopped : exec.2.2 ≠ .waits → result.ending = exec.2.2
  failed : exec.2.2 = .waits → stop.failed = true → result.ending = .closes
  settled : exec.2.2 = .waits → stop.failed = false →
    result.ending = .waits ∧ Shows result.conn stop.state ∧ result.conn.rbuf.payload = stop.unread

/-- The loop ends without a command when the machine waits without an output. -/
theorem loopSpec_waits {conn : FkConnIn} {request : Request} {unread : Bytes} {state : σ}
    (shows : Shows conn request) (left : conn.rbuf.payload = unread) :
    LoopSpec (state, [], .waits) ⟨request, unread, [], false⟩ ⟨conn, state, [], .waits⟩ where
  state := rfl
  handed := rfl
  stopped := fun stops => (stops rfl).elim
  failed := fun _ failed => (by cases failed)
  settled := fun _ _ => ⟨rfl, shows, left⟩

/-- A successful command in front. -/
theorem LoopSpec.cons {exec : σ × List (List Bytes) × LoopEnd}
    {stop : Stop UInt8 Request (List Bytes)} {result : LoopResult σ}
    (spec : LoopSpec exec stop result) (command : List Bytes) :
    LoopSpec (exec.1, command :: exec.2.1, exec.2.2) (stop.after [command])
      { result with handed := command.map some :: result.handed } where
  state := spec.state
  handed := congrArg (command.map some :: ·) spec.handed
  stopped := spec.stopped
  failed := spec.failed
  settled := spec.settled

theorem reqLoop_spec (proc : Proc σ) (state : σ) {conn : FkConnIn} {request : Request} {fuel : Nat}
    (shows : Shows conn request) (enough : conn.rbuf.fkBufPayloadLen ≤ fuel) :
    LoopSpec (execAll proc state (requestMachine.run request conn.rbuf.payload).outputs)
      (requestMachine.run request conn.rbuf.payload) (reqLoop proc fuel conn state) := by
  induction fuel generalizing conn request state with
  | zero =>
      have nil := (FkBuf.payload_eq_nil_iff _).mpr (Nat.le_zero.mp enough)
      rw [nil, requestMachine.run_wait (requestMachine.idle request)]
      exact loopSpec_waits shows nil
  | succ fuel ih =>
      rw [reqLoop]
      by_cases empty : conn.rbuf.fkBufPayloadLen = 0
      · have nil := (FkBuf.payload_eq_nil_iff _).mpr empty
        rw [nil, requestMachine.run_wait (requestMachine.idle request), if_pos empty]
        exact loopSpec_waits shows nil
      · rw [if_neg empty]
        obtain ⟨rt, parsed, called, spec⟩ := fkConnParseReq_spec shows
        rw [called]
        cases spec with
        | again run shown left =>
            rw [run]
            exact loopSpec_waits shown left
        | err outputs failed =>
            rw [outputs]
            refine ⟨rfl, rfl, fun stops => (stops rfl).elim, fun _ _ => rfl, ?_⟩
            intro _ fine
            rw [failed] at fine
            cases fine
        | @ok _ out rest emits cnt slots done unread reset =>
            have smaller := Machine.Emits.length_lt _ emits
            rw [FkBuf.length_payload, ← unread, FkBuf.length_payload] at smaller
            rw [Machine.Emits.run _ emits]
            simp only [slots]
            change LoopSpec (execAll proc state (out :: (requestMachine.run .idle rest).outputs)) _
              _
            rw [execAll]
            cases ran : proc state (out.map some) with
            | none =>
                refine ⟨rfl, rfl, fun _ => rfl, ?_, ?_⟩ <;>
                  · intro waits
                    cases waits
            | some pair =>
                obtain ⟨code, after⟩ := pair
                have smallerFree : (fkConnFreeArgs parsed).rbuf.fkBufPayloadLen ≤ fuel := by
                  change parsed.rbuf.fkBufPayloadLen ≤ fuel
                  omega
                have later := ih after reset smallerFree
                rw [show (fkConnFreeArgs parsed).rbuf.payload = rest from unread] at later
                cases code with
                | err =>
                    refine ⟨rfl, rfl, fun _ => rfl, ?_, ?_⟩ <;>
                      · intro waits
                        cases waits
                | ok => exact later.cons out
                | again => exact later.cons out
                | done => exact later.cons out

/-! ## The network path -/

/-- Received bytes behind the payload, in a buffer that always has room. -/
def FkConnIn.receive (conn : FkConnIn) (bytes : Bytes) : FkConnIn :=
  { conn with
    rbuf := (conn.rbuf.resize (max conn.rbuf.len (conn.rbuf.high + bytes.length))
      (Nat.le_trans conn.rbuf.high_le (Nat.le_max_left _ _))).append bytes }

theorem FkConnIn.payload_receive (conn : FkConnIn) (bytes : Bytes) :
    (conn.receive bytes).rbuf.payload = conn.rbuf.payload ++ bytes := by
  apply FkBuf.payload_append
  have room := Nat.le_max_right conn.rbuf.len (conn.rbuf.high + bytes.length)
  change bytes.length ≤ max conn.rbuf.len (conn.rbuf.high + bytes.length) - conn.rbuf.high
  omega

theorem FkConnIn.receive_shows {conn : FkConnIn} {request : Request} (shows : Shows conn request)
    (bytes : Bytes) : Shows (conn.receive bytes) request :=
  shows.withRbuf _

/-- The read callback on chunks as they arrive; `proc` runs the commands. -/
def readCb (proc : Proc σ) : FkConnIn → σ → List Bytes → LoopResult σ
  | conn, state, [] => ⟨conn, state, [], .waits⟩
  | conn, state, chunk :: rest =>
      let received := conn.receive chunk
      let result := reqLoop proc received.rbuf.fkBufPayloadLen received state
      match result.ending with
      | .waits =>
          let later := readCb proc result.conn result.state rest
          { later with handed := result.handed ++ later.handed }
      | _ => result

/-- Hand every argument vector on. -/
def handOn : Proc Unit := fun state _ => some (.ok, state)

theorem execAll_handOn (commands : List (List Bytes)) :
    execAll handOn () commands = ((), commands, .waits) := by
  induction commands with
  | nil => rfl
  | cons command rest ih =>
      change ((execAll handOn () rest).1, command :: (execAll handOn () rest).2.1,
        (execAll handOn () rest).2.2) = _
      rw [ih]

/-- The fields of a connection that the next read depends on. -/
def FkConnIn.parseState (conn : FkConnIn) : Nat × Nat × Int × List (Option Bytes) × Bytes :=
  (conn.argParsed, conn.argCnt, conn.curArglen, conn.argSlots, conn.rbuf.payload)

theorem parseState_of_shows {conn : FkConnIn} {request : Request} (shows : Shows conn request) :
    conn.parseState = (request.expected, request.args.length, request.arglen, request.args.map some,
      conn.rbuf.payload) := by
  have slots : conn.argSlots = request.args.map some := by
    rw [FkConnIn.argSlots, shows.cnt, shows.vtr]
    exact FkVtr.take_filled _
  rw [FkConnIn.parseState, shows.parsed, shows.cnt, shows.arglen, slots]

/-- Reading chunks is feeding them to the request machine. -/
structure ReadSpec (stop : Stop UInt8 Request (List Bytes)) (earlier : List (List Bytes))
    (result : LoopResult Unit) : Prop where
  handed : earlier.map (List.map some) ++ result.handed = stop.outputs.map (List.map some)
  failed : stop.failed = true → result.ending = .closes
  settled : stop.failed = false →
    result.ending = .waits ∧ Shows result.conn stop.state ∧ result.conn.rbuf.payload = stop.unread

theorem readCb_spec {conn : FkConnIn} {request : Request} (shows : Shows conn request)
    (earlier : List (List Bytes)) (chunks : List Bytes) :
    ReadSpec (requestMachine.feed ⟨request, conn.rbuf.payload, earlier, false⟩ chunks) earlier
      (readCb handOn conn () chunks) := by
  induction chunks generalizing conn request earlier with
  | nil =>
      refine ⟨List.append_nil _, ?_, fun _ => ⟨rfl, shows, rfl⟩⟩
      intro failed
      cases failed
  | cons chunk rest ih =>
      have spec := reqLoop_spec handOn () (FkConnIn.receive_shows shows chunk)
        (Nat.le_refl _)
      rw [execAll_handOn, conn.payload_receive] at spec
      rw [Machine.feed, if_neg Bool.false_ne_true, readCb]
      cases failed : (requestMachine.run request (conn.rbuf.payload ++ chunk)).failed with
      | true =>
          rw [requestMachine.feed_failed ((Stop.after_failed _ _).trans failed)]
          have closes := spec.failed rfl failed
          simp only [closes]
          refine ⟨?_, fun _ => closes, ?_⟩
          · rw [spec.handed]
            exact List.map_append.symm
          · intro fine
            rw [Stop.after_failed, failed] at fine
            cases fine
      | false =>
          obtain ⟨waits, shown, left⟩ := spec.settled rfl failed
          simp only [waits]
          have later := ih shown (earlier ++ (requestMachine.run request
            (conn.rbuf.payload ++ chunk)).outputs)
          rw [left] at later
          have stopEq : (requestMachine.run request (conn.rbuf.payload ++ chunk)).after earlier =
              ⟨(requestMachine.run request (conn.rbuf.payload ++ chunk)).state,
                (requestMachine.run request (conn.rbuf.payload ++ chunk)).unread,
                earlier ++ (requestMachine.run request (conn.rbuf.payload ++ chunk)).outputs,
                false⟩ := by
            rw [← failed]
            rfl
          rw [stopEq]
          refine ⟨?_, later.failed, later.settled⟩
          rw [← later.handed, spec.handed, List.map_append, List.append_assoc]

/-- However a stream is cut into chunks, the read callback hands on the same requests,
closes the connection or not, and otherwise keeps the same parse state; it never
writes outside the argument vector. -/
theorem readCb_cut_irrelevant (type : FkConnType) (maxWbuf : Nat) (stream : Bytes)
    (first second : List Bytes) (firstCut : first.flatten = stream)
    (secondCut : second.flatten = stream) :
    let fresh := (fkConnCreate type maxWbuf).toFkConnIn
    let left := readCb handOn fresh () first
    let right := readCb handOn fresh () second
    left.handed = right.handed ∧ (left.ending = .closes ↔ right.ending = .closes) ∧
      (left.ending ≠ .closes → left.conn.parseState = right.conn.parseState) ∧
      left.ending ≠ .faults ∧ right.ending ≠ .faults := by
  intro fresh left right
  have shows : Shows fresh .idle := fkConnCreate_shows type maxWbuf
  have leftSpec := readCb_spec shows [] first
  have rightSpec := readCb_spec shows [] second
  have same := requestMachine.feed_cut_irrelevant .idle (firstCut.trans secondCut.symm)
  change ReadSpec (requestMachine.feed ⟨.idle, [], [], false⟩ first) [] left at leftSpec
  change ReadSpec (requestMachine.feed ⟨.idle, [], [], false⟩ second) [] right at rightSpec
  have handed : left.handed = right.handed := by
    have leftHanded := leftSpec.handed
    have rightHanded := rightSpec.handed
    rw [List.map_nil, List.nil_append] at leftHanded rightHanded
    rw [leftHanded, rightHanded, same.outputs]
  cases failed : (requestMachine.feed ⟨.idle, [], [], false⟩ first).failed with
  | true =>
      have leftCloses := leftSpec.failed failed
      have rightCloses := rightSpec.failed (same.failed.symm.trans failed)
      refine ⟨handed, ⟨fun _ => rightCloses, fun _ => leftCloses⟩, ?_, ?_, ?_⟩
      · exact fun stays => (stays leftCloses).elim
      · rw [leftCloses]
        decide
      · rw [rightCloses]
        decide
  | false =>
      obtain ⟨leftWaits, leftShows, leftUnread⟩ := leftSpec.settled failed
      obtain ⟨rightWaits, rightShows, rightUnread⟩ :=
        rightSpec.settled (same.failed.symm.trans failed)
      obtain ⟨states, unread⟩ := same.settled failed
      refine ⟨handed, ?_, ?_, ?_, ?_⟩
      · rw [leftWaits, rightWaits]
      · intro _
        rw [parseState_of_shows leftShows, parseState_of_shows rightShows, leftUnread, rightUnread,
          states, unread]
      · rw [leftWaits]
        decide
      · rw [rightWaits]
        decide

/-- One request in one piece and cut inside its length line. -/
theorem readCb_cut_irrelevant_ping :
    let stream : Bytes := [42, 49, 13, 10, 36, 52, 13, 10, 80, 73, 78, 71, 13, 10]
    let cut : List Bytes := [stream.take 6, stream.drop 6]
    let fresh := (fkConnCreate .real 4096).toFkConnIn
    cut.flatten = stream ∧
      (readCb handOn fresh () [stream]).handed = (readCb handOn fresh () cut).handed ∧
      (readCb handOn fresh () cut).ending ≠ .faults := by
  intro stream cut fresh
  have cutStream : cut.flatten = stream := by decide
  have same := readCb_cut_irrelevant .real 4096 stream [stream] cut (List.append_nil _) cutStream
  exact ⟨cutStream, same.1, same.2.2.2.2⟩

end Freekick
