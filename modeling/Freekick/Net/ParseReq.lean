import Freekick.Net.Request

/-!
# `fk_conn_parse_req` runs the request machine

One call follows the machine from the state the connection shows up to its
first output, or to where it waits or fails.  In particular no call writes
outside the argument vector.
-/

namespace Freekick

open Lib.Decimal Lib.Resume

/-- The outcome of one call on a connection that showed `request` with `payload` left. -/
inductive ParseEnd (request : Request) (payload : Bytes) : FkRt → FkConnIn → Prop where
  | ok {conn : FkConnIn} {out : List Bytes} {rest : Bytes}
      (emits : requestMachine.Emits request payload out .idle rest)
      (cnt : conn.argCnt = out.length) (slots : conn.argSlots = out.map some)
      (done : conn.parseDone = true) (unread : conn.rbuf.payload = rest)
      (reset : Shows (fkConnFreeArgs conn) .idle) :
      ParseEnd request payload .ok conn
  | again {conn : FkConnIn} {state : Request} {unread : Bytes}
      (run : requestMachine.run request payload = ⟨state, unread, [], false⟩)
      (shows : Shows conn state) (left : conn.rbuf.payload = unread) :
      ParseEnd request payload .again conn
  | err {conn : FkConnIn} (outputs : (requestMachine.run request payload).outputs = [])
      (failed : (requestMachine.run request payload).failed = true) :
      ParseEnd request payload .err conn

/-- A silent move first does not change where the call ends. -/
theorem ParseEnd.of_move {request next : Request} {payload : Bytes} {used : Nat} {rt : FkRt}
    {conn : FkConnIn} (verdict : requestMachine.step request payload = .move used next none)
    (later : ParseEnd next (payload.drop used) rt conn) : ParseEnd request payload rt conn := by
  have joined := requestMachine.run_move verdict
  cases later with
  | ok emits cnt slots done unread reset =>
      exact .ok (.silent verdict emits) cnt slots done unread reset
  | again run shows left =>
      refine .again ?_ shows left
      rw [joined, run]
      rfl
  | err outputs failed =>
      refine .err ?_ ?_
      · rw [joined, Option.toList_none, Stop.after_nil]
        exact outputs
      · rw [joined]
        exact failed

theorem parseEnd_wait {request : Request} {conn : FkConnIn} (shows : Shows conn request)
    (verdict : requestMachine.step request conn.rbuf.payload = .wait) :
    ParseEnd request conn.rbuf.payload .again conn :=
  .again (requestMachine.run_wait verdict) shows rfl

theorem parseEnd_fail {request : Request} {payload : Bytes} {conn : FkConnIn}
    (verdict : requestMachine.step request payload = .fail) :
    ParseEnd request payload .err conn := by
  refine .err ?_ ?_
  · rw [requestMachine.run_fail verdict]
  · rw [requestMachine.run_fail verdict]

/-! ## The parts of the loop body -/

/-- With a pending length the loop goes straight to the argument. -/
theorem parseLen_pending {conn : FkConnIn} (pending : conn.curArglen ≠ -1) :
    parseLen conn = (none, conn) := by
  rw [parseLen, if_neg pending]

/-- Reading a length line and then looping is looping with the length known. -/
theorem parseArgs_known {conn known : FkConnIn} {fuel : Nat}
    (nonempty : conn.rbuf.fkBufPayloadLen ≠ 0) (read : parseLen conn = (none, known))
    (pending : known.curArglen ≠ -1) :
    parseArgs (fuel + 1) conn = parseArgs (fuel + 1) known := by
  rw [parseArgs, if_neg nonempty, read]
  by_cases empty : known.rbuf.fkBufPayloadLen = 0
  · have short : ¬ known.curArglen.toNat + 2 ≤ known.rbuf.fkBufPayloadLen := by omega
    have waits : parseArg known = some (some .again, known) := by
      simp only [parseArg, if_neg short]
    simp only [waits, parseArgs, if_pos empty]
  · rw [parseArgs, if_neg empty, parseLen_pending pending]

theorem shows_busy_vtr {conn : FkConnIn} {expected : Nat} {args : List Bytes} {pending : Option Nat}
    {room : args.length < expected} (shows : Shows conn (.busy expected args pending room))
    (arg : Bytes) :
    conn.argVtr.fkVtrSet conn.argCnt (some arg) =
      some (.filled fkVtrInitLen (max fkVtrInitLen expected) (args ++ [arg])) := by
  rw [shows.vtr, shows.cnt]
  exact FkVtr.fkVtrSet_filled arg (Nat.lt_of_lt_of_le room (Nat.le_max_right _ _))

section Loop

variable {conn : FkConnIn} {request : Request} {fuel : Nat}

/-- The loop stops where the machine waits. -/
theorem parseArgs_wait (busy : request ≠ .idle) (shows : Shows conn request)
    (verdict : requestStep request conn.rbuf.payload = .wait) :
    parseArgs fuel conn = some (.again, conn) := by
  cases fuel with
  | zero => rfl
  | succ fuel =>
      by_cases empty : conn.rbuf.fkBufPayloadLen = 0
      · rw [parseArgs, if_pos empty]
      · have nonempty : conn.rbuf.payload ≠ [] :=
          fun nil => empty ((FkBuf.payload_eq_nil_iff _).mp nil)
        unfold requestStep at verdict
        rw [if_neg nonempty] at verdict
        rw [parseArgs, if_neg empty]
        cases request with
        | idle => exact (busy rfl).elim
        | busy expected args pending room =>
            cases pending with
            | none =>
                have known : conn.curArglen = -1 := shows.arglen
                rw [parseLen, if_pos known]
                cases read : argLine lenLine conn.rbuf.payload with
                | again => rfl
                | err => simp only [read] at verdict; cases verdict
                | number argl used => simp only [read] at verdict; cases verdict
            | some argLen =>
                have pending : conn.curArglen = (argLen : Int) := shows.arglen
                rw [parseLen_pending (by rw [pending]; omega)]
                simp only [FkBuf.length_payload] at verdict
                have short : ¬ argLen + 2 ≤ conn.rbuf.fkBufPayloadLen := by
                  intro long
                  rw [if_pos long] at verdict
                  split at verdict
                  · cases verdict
                  · unfold argVerdict at verdict
                    split at verdict <;> cases verdict
                have waits : parseArg conn = some (some .again, conn) := by
                  simp only [parseArg, pending, Int.toNat_natCast, if_neg short]
                simp only [waits]

/-- The loop fails where the machine does. -/
theorem parseArgs_fail (busy : request ≠ .idle) (shows : Shows conn request)
    (verdict : requestStep request conn.rbuf.payload = .fail)
    (enough : conn.rbuf.fkBufPayloadLen ≤ fuel) :
    parseArgs fuel conn = some (.err, conn) := by
  obtain ⟨nonempty, fails⟩ := requestStep_fail verdict
  have lengthNe : conn.rbuf.fkBufPayloadLen ≠ 0 :=
    fun zero => nonempty ((FkBuf.payload_eq_nil_iff _).mpr zero)
  cases fuel with
  | zero => exact (lengthNe (Nat.le_zero.mp enough)).elim
  | succ fuel =>
      rw [parseArgs, if_neg lengthNe]
      rcases fails with ⟨rfl, _⟩ | ⟨expected, args, room, rfl, read⟩ |
        ⟨expected, args, argLen, room, rfl, long, ends⟩
      · exact (busy rfl).elim
      · have known : conn.curArglen = -1 := shows.arglen
        rw [parseLen, if_pos known, read]
      · have pending : conn.curArglen = (argLen : Int) := shows.arglen
        rw [FkBuf.length_payload] at long
        have fails : parseArg conn = some (some .err, conn) := by
          simp only [parseArg, pending, Int.toNat_natCast, if_pos long, if_pos ends]
        rw [parseLen_pending (by rw [pending]; omega)]
        simp only [fails]

/-- The connection with one more argument. -/
def FkConnIn.stored (conn : FkConnIn) (expected : Nat) (args : List Bytes)
    (argLen : Nat) : FkConnIn :=
  { conn with
    argVtr := .filled fkVtrInitLen (max fkVtrInitLen expected)
      (args ++ [conn.rbuf.payload.take argLen])
    argCnt := conn.argCnt + 1
    curArglen := -1
    rbuf := conn.rbuf.fkBufLowInc (argLen + 2) }

theorem parseArg_stored {expected argLen : Nat} {args : List Bytes} {room : args.length < expected}
    (shows : Shows conn (.busy expected args (some argLen) room))
    (long : argLen + 2 ≤ conn.rbuf.payload.length)
    (first : conn.rbuf.payload[argLen]? = some carriageReturn)
    (second : conn.rbuf.payload[argLen + 1]? = some lineFeed) :
    parseArg conn = some (if expected = args.length + 1 then
      (some .ok, { conn.stored expected args argLen with parseDone := true })
      else (none, conn.stored expected args argLen)) := by
  have pending : conn.curArglen = (argLen : Int) := shows.arglen
  have parsed : conn.argParsed = expected := shows.parsed
  have cnt : conn.argCnt = args.length := shows.cnt
  have last : conn.argParsed = conn.argCnt + 1 ↔ expected = args.length + 1 := by rw [parsed, cnt]
  rw [FkBuf.length_payload] at long
  simp only [parseArg, pending, Int.toNat_natCast, if_pos long]
  rw [if_neg (by simp [first, second]), shows_busy_vtr shows]
  exact congrArg some (if_congr last rfl rfl)

end Loop

/-- The loop from inside a request. -/
theorem parseArgs_spec {request : Request} {payload : Bytes} :
    ∀ {conn : FkConnIn} {fuel : Nat}, request ≠ .idle → Shows conn request →
      conn.rbuf.payload = payload → conn.rbuf.fkBufPayloadLen ≤ fuel →
        ∃ rt stored, parseArgs fuel conn = some (rt, stored) ∧
          ParseEnd request payload rt stored := by
  induction request, payload using requestMachine.run_induction with
  | wait request payload verdict =>
      intro conn fuel busy shows same enough
      subst same
      exact ⟨.again, conn, parseArgs_wait busy shows verdict, parseEnd_wait shows verdict⟩
  | fail request payload verdict =>
      intro conn fuel busy shows same enough
      subst same
      exact ⟨.err, conn, parseArgs_fail busy shows verdict enough, parseEnd_fail verdict⟩
  | move request payload used next output verdict ih =>
      intro conn fuel busy shows same enough
      subst same
      obtain ⟨nonempty, moves⟩ := requestStep_move verdict
      have lengthNe : conn.rbuf.fkBufPayloadLen ≠ 0 :=
        fun zero => nonempty ((FkBuf.payload_eq_nil_iff _).mpr zero)
      cases fuel with
      | zero => exact (lengthNe (Nat.le_zero.mp enough)).elim
      | succ fuel =>
          rcases moves with ⟨_, _, rfl, _⟩ | ⟨expected, args, argl, room, rfl, read, rfl, rfl⟩ |
            ⟨expected, args, argLen, room, rfl, long, first, second, rfl, last⟩
          · exact (busy rfl).elim
          · have unknown : conn.curArglen = -1 := shows.arglen
            let known : FkConnIn :=
              { conn with curArglen := argl, rbuf := conn.rbuf.fkBufLowInc used }
            have lenRead : parseLen conn = (none, known) := by
              rw [parseLen, if_pos unknown, read]
            have shown : Shows known (.busy expected args (some argl) room) :=
              ⟨shows.parsed, shows.cnt, rfl, shows.done, shows.vtr⟩
            have smaller : known.rbuf.fkBufPayloadLen ≤ fuel + 1 := by
              rw [← FkBuf.length_payload, FkBuf.payload_fkBufLowInc, List.length_drop,
                FkBuf.length_payload]
              omega
            obtain ⟨rt, stored, ended, spec⟩ := ih (by simp) shown
              (FkBuf.payload_fkBufLowInc _ _) smaller
            refine ⟨rt, stored, ?_, .of_move verdict spec⟩
            rw [parseArgs_known lengthNe lenRead (show (argl : Int) ≠ -1 by omega)]
            exact ended
          · have pending : conn.curArglen = (argLen : Int) := shows.arglen
            have storedCnt : (conn.stored expected args argLen).argCnt =
                (args ++ [conn.rbuf.payload.take argLen]).length := by
              rw [List.length_append, List.length_singleton]
              exact congrArg (· + 1) shows.cnt
            rw [parseArgs, if_neg lengthNe, parseLen_pending (by rw [pending]; omega)]
            simp only [parseArg_stored shows long first second]
            unfold argVerdict at last
            by_cases more : (args ++ [conn.rbuf.payload.take argLen]).length < expected
            · rw [dif_pos more] at last
              cases last
              rw [List.length_append, List.length_singleton] at more
              rw [if_neg (by omega)]
              have smaller : (conn.stored expected args argLen).rbuf.fkBufPayloadLen ≤ fuel := by
                rw [← FkBuf.length_payload, FkConnIn.stored, FkBuf.payload_fkBufLowInc,
                  List.length_drop, FkBuf.length_payload]
                omega
              have shown : Shows (conn.stored expected args argLen) (.busy expected
                  (args ++ [conn.rbuf.payload.take argLen]) none (by simpa using more)) :=
                ⟨shows.parsed, storedCnt, rfl, shows.done, rfl⟩
              obtain ⟨rt, final, ended, spec⟩ := ih (by simp) shown
                (FkBuf.payload_fkBufLowInc _ _) smaller
              exact ⟨rt, final, ended, .of_move verdict spec⟩
            · rw [dif_neg more] at last
              cases last
              have full : expected = (args ++ [conn.rbuf.payload.take argLen]).length := by
                rw [List.length_append, List.length_singleton] at more ⊢
                omega
              rw [if_pos (by rw [full, List.length_append, List.length_singleton])]
              refine ⟨.ok, _, rfl, .ok (.last verdict) storedCnt ?_ rfl
                (FkBuf.payload_fkBufLowInc _ _) ?_⟩
              · change List.take (conn.stored expected args argLen).argCnt
                  (conn.stored expected args argLen).argVtr.array = _
                rw [storedCnt]
                exact FkVtr.take_filled _
              · refine fkConnFreeArgs_shows storedCnt ?_ (Nat.le_max_left _ _) rfl
                rw [← full]
                exact Nat.le_max_right _ _

/-- One call of `fk_conn_parse_req`, from any state a connection can show. -/
theorem fkConnParseReq_spec {conn : FkConnIn} {request : Request} (shows : Shows conn request) :
    ∃ rt stored, fkConnParseReq conn = some (rt, stored) ∧
      ParseEnd request conn.rbuf.payload rt stored := by
  cases request with
  | busy expected args pending room =>
      have started : conn.argParsed ≠ 0 := by
        rw [shows.parsed]
        exact Nat.ne_of_gt (Nat.lt_of_le_of_lt (Nat.zero_le _) room)
      rw [fkConnParseReq, if_neg (fun both => started both.1)]
      exact parseArgs_spec (by simp) shows rfl (Nat.le_refl _)
  | idle =>
      by_cases empty : conn.rbuf.fkBufPayloadLen = 0
      · refine ⟨.again, conn, ?_, parseEnd_wait shows ?_⟩
        · rw [fkConnParseReq, if_neg (by omega), empty]
          rfl
        · rw [(FkBuf.payload_eq_nil_iff _).mpr empty]
          exact requestMachine.idle _
      · have nonempty : conn.rbuf.payload ≠ [] :=
          fun nil => empty ((FkBuf.payload_eq_nil_iff _).mp nil)
        rw [fkConnParseReq, if_pos ⟨shows.parsed, Nat.pos_of_ne_zero empty⟩]
        cases read : argLine cntLine conn.rbuf.payload with
        | again =>
            refine ⟨.again, conn, rfl, parseEnd_wait shows ?_⟩
            rw [requestMachine_idle nonempty, read]
        | err =>
            refine ⟨.err, conn, rfl, parseEnd_fail ?_⟩
            rw [requestMachine_idle nonempty, read]
        | number argc used =>
            obtain ⟨_, _, _, positive, _, _⟩ := (argLine_number_iff cntLine_lawful nonempty).mp read
            have room : ([] : List Bytes).length < argc := positive
            have verdict : requestMachine.step .idle conn.rbuf.payload =
                .move used (.busy argc [] none room) none := by
              rw [requestMachine_idle nonempty, read]
              exact dif_pos room
            let counted : FkConnIn := { conn with
              argParsed := argc
              argVtr := conn.argVtr.fkVtrStretch argc
              rbuf := conn.rbuf.fkBufLowInc used }
            have shown : Shows counted (.busy argc [] none room) := by
              refine ⟨rfl, shows.cnt, shows.arglen, shows.done, ?_⟩
              change conn.argVtr.fkVtrStretch argc = _
              rw [shows.vtr]
              exact FkVtr.fkVtrStretch_filled _ _ _
            have smaller : counted.rbuf.fkBufPayloadLen ≤ conn.rbuf.fkBufPayloadLen := by
              rw [← FkBuf.length_payload, FkBuf.payload_fkBufLowInc, List.length_drop,
                FkBuf.length_payload]
              omega
            obtain ⟨rt, stored, ended, spec⟩ := parseArgs_spec (by simp) shown
              (FkBuf.payload_fkBufLowInc _ _) smaller
            exact ⟨rt, stored, ended, .of_move verdict spec⟩

end Freekick
