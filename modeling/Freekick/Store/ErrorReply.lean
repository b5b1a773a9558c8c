import Freekick.Store.Deadlines
import Freekick.Store.OneReply
import Freekick.Store.Wire

/-!
# Replies that are errors

A handler that answers with an error has changed no database and selected no other one.
On the wire such a reply is known by its first byte.
-/

namespace Freekick

open Lib.Call Lib.Steps

/-- What a request adds to the write buffer is an error. -/
def ErrorQueued (before after : FkBuf) : Prop :=
  ∃ rest, after.payload = before.payload ++ 45 :: rest

instance (before after : FkBuf) : Decidable (ErrorQueued before after) :=
  decidable_of_iff (after.payload = before.payload ++ after.payload.drop before.payload.length ∧
      (after.payload.drop before.payload.length).head? = some 45)
    ⟨fun ⟨whole, minus⟩ => ⟨_, whole.trans (congrArg _ (List.cons_head?_tail minus).symm)⟩,
      fun ⟨rest, whole⟩ => by
      rw [whole, List.drop_left]
      exact ⟨rfl, rfl⟩⟩

/-! ## Handlers that answer with an error -/

namespace Cmd

variable {dbcnt count : Nat} {clock : Nat → Int} {space : Keyspace} {cmd : Cmd} {answer : Answer}
  {message : Bytes}

/-- A `GET` that finds something has removed nothing. -/
theorem left_of_found {key : Bytes} {value : Value}
    (found : (space.look clock key).found = some value) :
    (space.look clock key).left = space := by
  unfold Keyspace.look at found ⊢
  split
  · rfl
  · next deadline limit =>
      rw [limit] at found
      dsimp only at found
      split
      · next overdue =>
          rw [if_pos overdue] at found
          cases found
      · rfl

/-- The errors of `ZADD` come after a look at the key only. -/
theorem run_zadd {key : Bytes} (ran : (zadd key count).run dbcnt clock space = some answer) :
    answer.space = space := by
  rw [run] at ran
  split at ran <;> cases ran
  rfl

theorem run_error_space (ran : cmd.run dbcnt clock space = some answer)
    (error : answer.reply = .error message) :
    answer.space = space := by
  cases own : cmd.ownKey with
  | some key =>
      obtain ⟨act, acts⟩ := exists_acts own
      rw [acts.run] at ran
      cases ran
      exact congrArg (space.write key) (acts.errors _ _ error)
  | none =>
      cases cmd with
      | set | setex | mset | mget | del | flushdb | flushall | save =>
          cases ran
          cases error
      | get key =>
          cases ran
          change getReply (space.look clock key).found = _ at error
          cases found : (space.look clock key).found with
          | none =>
              rw [found] at error
              cases error
          | some value => exact left_of_found found
      | zadd key arity => exact run_zadd ran
      | select | refused =>
          cases ran
          rfl
      | setnx | existing | hset | hget | push | pop | llen => cases own

/-- The other database is selected with a status only. -/
theorem run_error_selects {idx : Nat} (ran : cmd.run dbcnt clock space = some answer)
    (error : answer.reply = .error message) :
    cmd.selects dbcnt idx = idx := by
  cases cmd with
  | select text =>
      cases ran
      change (if OutOfRange dbcnt text then Reply.error fkRspErr else .status fkRspOk) = _ at error
      rw [selects]
      split at error
      · next outside => exact if_pos outside
      · cases error
  | _ => rfl

theorem run_error_after {idx : Nat} {spaces : Nat → Keyspace}
    (ran : cmd.run dbcnt clock (spaces idx) = some answer)
    (error : answer.reply = .error message) : cmd.after dbcnt idx spaces answer.space = spaces := by
  have kept := run_error_space ran error
  cases cmd with
  | flushall =>
      cases ran
      cases error
  | _ =>
      rw [kept]
      exact Function.update_eq_self ..

end Cmd

/-! ## The first byte -/

section FirstByte

variable {junk : Nat → UInt8} {wbuf after : FkBuf} {rsp : Rsp} {first later : List Rsp}
  {reply : Reply} {rest : Bytes}

theorem printed_cons {byte : UInt8} {text : Bytes} {len : Nat} (positive : 0 < len) :
    ∃ behind, printed junk (byte :: text) len = byte :: behind := by
  obtain ⟨len, rfl⟩ := Nat.exists_eq_succ_of_ne_zero (Nat.ne_of_gt positive)
  exact ⟨_, rfl⟩

/-- The calls of a reply term, up to any of them, begin with a minus for an error only. -/
theorem Reply.error_of_minus (calls : reply.calls = first ++ later)
    (minus : (first.flatMap fun rsp => printed junk rsp.text rsp.len) = 45 :: rest) :
    ∃ message, reply = .error message := by
  cases first with
  | nil => cases minus
  | cons rsp more =>
      rw [List.cons_append] at calls
      rw [List.flatMap_cons] at minus
      have begins : ∀ byte text, rsp.text = byte :: text → 0 < rsp.len → byte = 45 := by
        intro byte text same positive
        obtain ⟨behind, known⟩ := @printed_cons junk byte text rsp.len positive
        rw [same, known] at minus
        exact (List.cons.inj minus).1
      cases reply with
      | error message => exact ⟨message, rfl⟩
      | status stat =>
          obtain rfl := (List.cons.inj calls).1
          exact absurd (begins _ _ rfl (Nat.succ_pos _)) (by decide)
      | int num =>
          obtain rfl := (List.cons.inj calls).1
          exact absurd (begins _ _ rfl (Nat.succ_pos _)) (by decide)
      | nil =>
          obtain rfl := (List.cons.inj calls).1
          exact absurd (begins _ _ rfl (Nat.succ_pos _)) (by decide)
      | bulk bytes =>
          obtain rfl := (List.cons.inj calls).1
          exact absurd (begins _ _ rfl (Nat.succ_pos _)) (by decide)
      | multi items =>
          obtain rfl := (List.cons.inj calls).1
          exact absurd (begins _ _ rfl (Nat.succ_pos _)) (by decide)

theorem error_of_queueAll_ok (queued : queueAll junk reply.calls wbuf = .ok () after)
    (error : ErrorQueued wbuf after) :
    ∃ message, reply = .error message := by
  obtain ⟨rest, whole⟩ := error
  obtain ⟨space, known⟩ := queued_of_ok queued
  rw [known.payload] at whole
  exact Reply.error_of_minus (List.append_nil _).symm (List.append_cancel_left whole)

/-- A refused call adds nothing. -/
theorem Rsp.queue_err_payload (refused : rsp.queue junk wbuf = .err after) :
    after.payload = wbuf.payload := by
  unfold Rsp.queue at refused
  split at refused
  · cases refused
  · next grown allocated =>
      split at refused <;> cases refused
      exact FkBuf.payload_fkBufAlloc allocated

/-- The calls before the refused one add their bytes. -/
theorem queueAll_err_payload {rsps : List Rsp} (failed : queueAll junk rsps wbuf = .err after) :
    ∃ first rsp later, rsps = first ++ rsp :: later ∧
      after.payload = wbuf.payload ++ first.flatMap fun rsp => printed junk rsp.text rsp.len := by
  obtain ⟨first, rsp, later, middle, calls, queued, last⟩ := queueAll_err failed
  obtain ⟨space, known⟩ := queued_of_ok queued
  exact ⟨first, rsp, later, calls, (Rsp.queue_err_payload last).trans known.payload⟩

/-- A single call that is refused adds nothing. -/
theorem queueAll_single_err_payload (refused : queueAll junk [rsp] wbuf = .err after) :
    after.payload = wbuf.payload := by
  obtain ⟨first, last, later, calls, payload⟩ := queueAll_err_payload refused
  cases first with
  | nil => rw [payload, List.flatMap_nil, List.append_nil]
  | cons one more =>
      have counts := congrArg List.length calls
      simp only [List.length_append, List.length_cons, List.length_nil] at counts
      omega

theorem not_error_of_queueAll_err (refused : queueAll junk reply.calls wbuf = .err after) :
    ¬ ErrorQueued wbuf after := by
  rintro ⟨rest, whole⟩
  obtain ⟨first, rsp, later, calls, payload⟩ := queueAll_err_payload refused
  rw [payload] at whole
  obtain ⟨message, rfl⟩ := Reply.error_of_minus calls (List.append_cancel_left whole)
  have unchanged := @queueAll_single_err_payload _ _ _ (.error message) refused
  rw [unchanged] at payload
  have none := List.append_cancel_left ((List.append_nil wbuf.payload).trans payload)
  rw [← none] at whole
  cases List.append_cancel_left whole

end FirstByte

/-! ## Every request -/

section Requests

variable {good : Bytes → Prop} {fkCmdEval : Handler} {work after : Work}
  {args : List Bytes} {rt : FkRt}

theorem fkConnProcCmd_error_keeps (nonempty : args ≠ [])
    (notEval : fkStr2upper (args.headD []) ≠ ascii "EVAL")
    (ok : SvrOk good work.svr) (timed : work.svr.Timed)
    (called : fkConnProcCmd fkCmdEval work (args.map some) = some (rt, after))
    (error : ErrorQueued work.out.wbuf after.out.wbuf) :
    after.svr.spaces = work.svr.spaces ∧ after.out.dbIdx = work.out.dbIdx := by
  have dispatched := @procArgs_dispatched good fkCmdEval work _ args nonempty notEval ok timed.holds
  rw [fkConnProcCmd_args] at called
  generalize procArgs fkCmdEval args work = outcome at dispatched called
  cases dispatched with
  | crashed => cases called
  | overflow => cases called
  | refused ran queued cut leaves =>
      cases called
      exact absurd error (not_error_of_queueAll_err queued)
  | done ran queued leaves =>
      cases called
      obtain ⟨message, known⟩ := error_of_queueAll_ok queued error
      exact ⟨leaves.holds.spaces_eq.trans (Cmd.run_error_after ran known),
        leaves.idx.trans (Cmd.run_error_selects ran known)⟩

/-- In every state that clients and sweeps lead to, a command that is answered with an error
leaves all databases, all deadlines and the selection as they were. -/
theorem fkSystem_error_unchanged (fkCmdEval : Handler) (maxWbuf : Nat) {dbcnt : Nat} {blogOn : Bool}
    {clock : Nat → Int} {junk : Nat → UInt8} {moments : List Moment} {sys : FkSystem}
    (positive : 0 < dbcnt) (admitted : ∀ moment ∈ moments, moment.Admitted)
    (reached : run (FkSystem.moment fkCmdEval maxWbuf) (fkSystemInit dbcnt blogOn clock junk)
      moments = some sys)
    (out : FkConnOut) {args : List Bytes} (nonempty : args ≠ [])
    (notEval : fkStr2upper (args.headD []) ≠ ascii "EVAL") {rt : FkRt} {after : Work}
    (called : fkConnProcCmd fkCmdEval ⟨sys.svr, out⟩ (args.map some) = some (rt, after))
    (error : ErrorQueued out.wbuf after.out.wbuf) :
    after.svr.spaces = sys.svr.spaces ∧ after.out.dbIdx = out.dbIdx := by
  have sound := (fkSystem_moments_sound positive admitted reached).1
  exact fkConnProcCmd_error_keeps nonempty notEval sound.ok sound.timed called error

end Requests

/-- A push to a key that holds a string. -/
theorem fkSystem_error_unchanged_push :
    ∃ sys rt after,
      run (FkSystem.moment (fun _ => Act.fault) 1024) (fkSystemInit 1 false fastClock (fun _ => 0))
        setMoments = some sys ∧ fkConnProcCmd (fun _ => Act.fault)
          ⟨sys.svr, (fkConnCreate .real 1024).toFkConnOut⟩
          ([ascii "LPUSH", ascii "k", ascii "v"].map some) = some (rt, after) ∧
        after.svr.spaces = sys.svr.spaces ∧ after.out.dbIdx = 0 := by
  have known :
      ((run (FkSystem.moment (fun _ => Act.fault) 1024)
        (fkSystemInit 1 false fastClock (fun _ => 0))
      setMoments).bind fun sys =>
      (fkConnProcCmd (fun _ => Act.fault) ⟨sys.svr, (fkConnCreate .real 1024).toFkConnOut⟩
        ([ascii "LPUSH", ascii "k", ascii "v"].map some)).map fun result =>
          decide (ErrorQueued (fkConnCreate .real 1024).toFkConnOut.wbuf result.2.out.wbuf)) =
            some true := by
    decide +kernel
  obtain ⟨sys, reached, found⟩ := Option.bind_eq_some_iff.mp known
  obtain ⟨⟨rt, after⟩, called, error⟩ := Option.map_eq_some_iff.mp found
  refine ⟨sys, rt, after, reached, called, ?_⟩
  refine fkSystem_error_unchanged (fun _ => Act.fault) 1024 (by decide) ?_ reached _
    (List.cons_ne_nil _ _) (by decide) called (of_decide_eq_true error)
  simp only [setMoments, List.forall_mem_cons]
  exact ⟨trivial, (by decide +kernel : Admitted [ascii "SET", ascii "k", ascii "w"]), trivial,
    fun _ absent => absurd absent List.not_mem_nil⟩

end Freekick
