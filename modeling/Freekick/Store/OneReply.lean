import Freekick.Store.Dispatch
import Freekick.Store.OneKey
import Freekick.Store.Space
import Freekick.Store.System

/-!
# One reply for each request

`fk_conn_proc_cmd` on a connection whose parser is done with a request.  It queues one
reply term, or a call of that term is refused and it returns the error.  In both cases
the arguments are freed and the parser is ready for the next request.
-/

namespace Freekick

open Lib.Call

/-! ## The connection -/

/-- The arguments of a request that no handler gets are freed before its error reply. -/
def rejectReq (conn : FkConnIn) (message : Bytes) (work : Work) :
    Option (FkRt × FkConnIn × Work) :=
  let freed := fkConnFreeArgs conn
  match fkConnAddErrorRsp message work with
  | .ok _ after => some (.ok, freed, after)
  | .err after => some (.err, freed, after)
  | .fault => none

/-- `fk_conn_proc_cmd` with both halves of the connection.  A null item among the arguments is a
crash. -/
def fkConnProcCmdBoth (fkCmdEval : Handler) (conn : FkConnIn) (work : Work) :
    Option (FkRt × FkConnIn × Work) :=
  if conn.parseDone = false then some (.ok, conn, work)
  else
    match conn.argSlots.mapM id with
    | none => none
    | some [] => none
    | some (first :: rest) =>
        let name := fkStr2upper first
        match fkProtoSearch fkCmdEval name with
        | none => rejectReq conn (ascii "Invalid Protocol") work
        | some pto =>
            if pto.argCnt < 0 ∧ (conn.argCnt : Int) < -pto.argCnt then
              rejectReq conn (ascii "Wrong Argument Number") work
            else if 0 ≤ pto.argCnt ∧ pto.argCnt ≠ conn.argCnt then
              rejectReq conn (ascii "Wrong Argument Number") work
            else
              match pto.handler (name :: rest) work with
              | .fault => none
              | .err after => some (.err, fkConnFreeArgs conn, after)
              | .ok _ after =>
                  match blogAppend pto (name :: rest) after with
                  | .fault => none
                  | .err logged => some (.ok, fkConnFreeArgs conn, logged)
                  | .ok _ logged => some (.ok, fkConnFreeArgs conn, logged)

/-- The parser has stored a whole request; the slots behind it are empty. -/
structure Parsed (conn : FkConnIn) (args : List Bytes) : Prop where
  done : conn.parseDone = true
  count : conn.argCnt = args.length
  slots : ∃ unused, conn.argVtr.array = args.map some ++ List.replicate unused none
  nonempty : args ≠ []

/-- The parser is ready for the next request. -/
structure Reset (conn : FkConnIn) : Prop where
  argParsed : conn.argParsed = 0
  argCnt : conn.argCnt = 0
  parseDone : conn.parseDone = false
  curArglen : conn.curArglen = -1
  slots : ∀ slot ∈ conn.argVtr.array, slot = none

section Connection

variable {conn : FkConnIn} {args : List Bytes}

theorem Parsed.argSlots (parsed : Parsed conn args) : conn.argSlots = args.map some := by
  obtain ⟨unused, array⟩ := parsed.slots
  rw [FkConnIn.argSlots, array, parsed.count, List.take_left' (List.length_map _)]

theorem fkVtrShrink_subset (vtr : FkVtr Bytes) : vtr.fkVtrShrink.array ⊆ vtr.array := by
  unfold FkVtr.fkVtrShrink
  split
  · exact List.take_subset ..
  · exact fun _ member => member

theorem Parsed.reset (parsed : Parsed conn args) : Reset (fkConnFreeArgs conn) where
  argParsed := rfl
  argCnt := rfl
  parseDone := rfl
  curArglen := rfl
  slots := by
    intro slot member
    obtain ⟨unused, array⟩ := parsed.slots
    obtain ⟨index, inside, known⟩ := List.mem_mapIdx.mp (fkVtrShrink_subset _ member)
    rw [← known]
    split
    · rfl
    · next later =>
        rw [parsed.count] at later
        simp only [array]
        rw [List.getElem_append_right (by rw [List.length_map]; exact Nat.le_of_not_lt later),
          List.getElem_replicate]

/-- What a call returns after `fk_conn_free_args`. -/
def freed (conn : FkConnIn) (outcome : Outcome Work Unit) : Option (FkRt × FkConnIn × Work) :=
  (returned outcome).map fun result => (result.1, fkConnFreeArgs conn, result.2)

end Connection

/-! ## One reply term -/

/-- The texts that the source has for statuses and errors. -/
def Reply.Plain : Reply → Prop
  | .status stat => stat = fkRspOk
  | .error message => message ∈
      [fkRspErr, fkRspTypeErr, fkRspArgcErr, ascii "Invalid Protocol",
        ascii "Wrong Argument Number"]
  | _ => True

/-- The calls of one reply term on a write buffer, all of them with success or up to one
that is refused. -/
inductive OneReply (junk : Nat → UInt8) (wbuf : FkBuf) : FkRt → FkBuf → Prop
  | whole {reply : Reply} {after : FkBuf} (plain : reply.Plain)
      (queued : queueAll junk reply.calls wbuf = .ok () after) : OneReply junk wbuf .ok after
  | refused {reply : Reply} {first later : List Rsp} {rsp : Rsp} {middle after : FkBuf}
      (plain : reply.Plain) (calls : reply.calls = first ++ rsp :: later)
      (queued : queueAll junk first wbuf = .ok () middle)
      (refused : rsp.queue junk middle = .err after) : OneReply junk wbuf .err after

/-- The call that was refused. -/
theorem queueAll_err {junk : Nat → UInt8} {rsps : List Rsp} {wbuf after : FkBuf}
    (failed : queueAll junk rsps wbuf = .err after) :
    ∃ first rsp later middle, rsps = first ++ rsp :: later ∧
      queueAll junk first wbuf = .ok () middle ∧ rsp.queue junk middle = .err after := by
  induction rsps generalizing wbuf with
  | nil => cases failed
  | cons rsp rest ih =>
      rcases Act.bind_eq_err failed with refused | ⟨value, middle, called, later⟩
      · exact ⟨[], rsp, rest, wbuf, rfl, rfl, refused⟩
      · obtain ⟨first, next, behind, between, split, queued, refused⟩ := ih later
        refine ⟨rsp :: first, next, behind, between, ?_, (Act.bind_ok called).trans queued, refused⟩
        rw [split, List.cons_append]

theorem errors_plain : (Reply.error fkRspErr).Plain ∧ (Reply.error fkRspTypeErr).Plain ∧
    (Reply.error fkRspArgcErr).Plain ∧ (Reply.error (ascii "Invalid Protocol")).Plain ∧
    (Reply.error (ascii "Wrong Argument Number")).Plain := by
  simp [Reply.Plain]

/-- The messages of requests that no handler accepts. -/
theorem cmdOf_message {args : List Bytes} {message : Bytes}
    (refused : cmdOf args = .refused message) :
    (Reply.error message).Plain := by
  obtain ⟨_, _, argc, unknown, miscounted⟩ := errors_plain
  have asks := cmdOf_asks args
  rw [refused] at asks
  generalize fkStr2upper (args.headD []) = name at asks
  generalize args.tail = rest at asks
  cases asks with
  | refused known =>
      rcases List.mem_cons.mp known with rfl | known
      · exact argc
      · rcases List.mem_cons.mp known with rfl | known
        · exact unknown
        · rw [List.mem_singleton.mp known]
          exact miscounted

/-- The reply of a request. -/
theorem run_plain {dbcnt : Nat} {clock : Nat → Int} {space : Keyspace} {cmd : Cmd} {answer : Answer}
    (message : ∀ message, cmd = .refused message → (Reply.error message).Plain)
    (ran : cmd.run dbcnt clock space = some answer) : answer.reply.Plain := by
  obtain ⟨error, typeErr, argc, _, _⟩ := errors_plain
  cases cmd with
  | set | setex | mset | flushdb | flushall | save =>
      cases ran
      exact rfl
  | del | existing | mget =>
      cases ran
      trivial
  | setnx key value =>
      rw [Cmd.run] at ran
      split at ran <;> cases ran <;> trivial
  | get key =>
      cases ran
      change (getReply _).Plain
      unfold getReply
      split
      · trivial
      · trivial
      · exact typeErr
  | hset hkey key value =>
      rw [Cmd.run] at ran
      split at ran
      · cases ran
        trivial
      · cases ran
        trivial
      · cases ran
        exact typeErr
  | hget hkey key =>
      cases ran
      change (hgetReply _ _).Plain
      unfold hgetReply
      split
      · trivial
      · split <;> trivial
      · exact typeErr
  | push pos key nodes =>
      rw [Cmd.run] at ran
      split at ran
      · cases ran
        trivial
      · cases ran
        trivial
      · cases ran
        exact typeErr
  | pop pos key =>
      rw [Cmd.run] at ran
      split at ran
      · cases ran
        trivial
      · split at ran <;> cases ran <;> trivial
      · cases ran
        exact typeErr
  | llen key =>
      cases ran
      change (llenReply _).Plain
      unfold llenReply
      split
      · trivial
      · trivial
      · exact typeErr
  | select text =>
      cases ran
      dsimp only
      split
      · exact error
      · exact rfl
  | zadd key count =>
      rw [Cmd.run] at ran
      split at ran
      · cases ran
      · cases ran
        dsimp only
        split
        · exact argc
        · trivial
  | refused text =>
      cases ran
      exact message text rfl

/-! ## Every request -/

/-- A `ZADD` of a key that is not there. -/
def ZaddMissing (work : Work) (args : List Bytes) : Prop :=
  match cmdOf args with
  | .zadd key _ => fkDictGet dbDictEop (work.svr.db work.out.dbIdx) key = none
  | _ => False

/-- A call of the reply asks for a write buffer whose length is not an `int`. -/
def ReplyOverflows (work : Work) (args : List Bytes) : Prop :=
  ∃ answer ∈ work.answer work.svr.spaces (cmdOf args),
    work.out.wbuf.load.Overflows work.out.wbuf.highwat (answer.reply.calls.map Rsp.len)

/-- The call returns after one reply term or after a refused call, and the parser is reset. -/
def AnsweredOnce (fkCmdEval : Handler) (conn : FkConnIn) (work : Work) : Prop :=
  ∃ rt reset after, fkConnProcCmdBoth fkCmdEval conn work = some (rt, reset, after) ∧ Reset reset ∧
    OneReply work.svr.junk work.out.wbuf rt after.out.wbuf

section Requests

variable {good : Bytes → Prop} {fkCmdEval : Handler} {conn : FkConnIn} {work : Work}
  {args : List Bytes}

/-- Only `ZADD` crashes. -/
theorem answer_eq_none {spaces : Nat → Keyspace} (holds : Holds work.svr spaces) :
    work.answer spaces (cmdOf args) = none ↔ ZaddMissing work args := by
  unfold Work.answer ZaddMissing
  cases cmdOf args with
  | zadd key count =>
      dsimp only [Cmd.run]
      rw [← holds.get]
      cases fkDictGet dbDictEop (work.svr.db work.out.dbIdx) key with
      | none => exact iff_of_true rfl rfl
      | some item => exact iff_of_false nofun nofun
  | setnx | hset | push | pop => exact iff_of_false (Cmd.run_ne_none rfl _ _ _) id
  | _ => exact iff_of_false nofun id

theorem rejectReq_freed (conn : FkConnIn) (message : Bytes) (work : Work) :
    rejectReq conn message work = freed conn (fkConnAddErrorRsp message work) := by
  unfold rejectReq freed
  cases fkConnAddErrorRsp message work <;> rfl

/-- The two checks of the number of arguments fail in the same way. -/
theorem accepts_ite {A : Type} (pto : FkProto) (argCnt : Nat) (reject accept : A) :
    (if pto.argCnt < 0 ∧ (argCnt : Int) < -pto.argCnt then reject
      else if 0 ≤ pto.argCnt ∧ pto.argCnt ≠ argCnt then reject else accept) =
      if pto.accepts argCnt then accept else reject := by
  unfold FkProto.accepts
  by_cases fewer : pto.argCnt < 0 ∧ (argCnt : Int) < -pto.argCnt
  · simp [fewer]
  · by_cases other : 0 ≤ pto.argCnt ∧ pto.argCnt ≠ argCnt
    · rw [if_neg fewer, if_pos other]
      simp [other]
    · rw [if_neg fewer, if_neg other, if_pos]
      simp only [Bool.and_eq_true, Bool.not_eq_true', Bool.and_eq_false_imp, decide_eq_true_eq,
        decide_eq_false_iff_not]
      exact ⟨fun negative less => fewer ⟨negative, less⟩, fun least apart => other ⟨least, apart⟩⟩

/-- Whatever path the call returns on, the arguments are freed. -/
theorem fkConnProcCmdBoth_parsed (parsed : Parsed conn args) :
    fkConnProcCmdBoth fkCmdEval conn work = freed conn (procArgs fkCmdEval args work) := by
  have notWaiting : conn.parseDone ≠ false := by
    rw [parsed.done]
    nofun
  cases args with
  | nil => exact (parsed.nonempty rfl).elim
  | cons first rest =>
      unfold fkConnProcCmdBoth procArgs
      rw [if_neg notWaiting, parsed.argSlots, mapM_some]
      dsimp only
      cases fkProtoSearch fkCmdEval (fkStr2upper first) with
      | none => exact rejectReq_freed ..
      | some pto =>
          dsimp only
          rw [accepts_ite, parsed.count]
          split
          · cases handled : pto.handler (fkStr2upper first :: rest) work with
            | ok value after => rw [freed, Act.bind_ok handled]; rfl
            | err after => rw [freed, Act.bind_err handled]; rfl
            | fault => rw [freed, Act.bind_fault handled]; rfl
          · exact rejectReq_freed ..

/-- A command that runs and whose calls are defined does not reach either defect. -/
theorem returns_of_ran {answer : Answer}
    (ran : work.answer work.svr.spaces (cmdOf args) = some answer)
    (defined : queueAll work.svr.junk answer.reply.calls work.out.wbuf ≠ .fault) :
    ¬ work.answer work.svr.spaces (cmdOf args) = none ∧ ¬ ReplyOverflows work args := by
  refine ⟨?_, ?_⟩
  · rw [ran]
    nofun
  · rintro ⟨other, same, overflows⟩
    rw [ran] at same
    cases same
    exact defined (queueAll_eq_fault.mpr overflows)

theorem fkConnProcCmd_one_reply (parsed : Parsed conn args)
    (notEval : fkStr2upper (args.headD []) ≠ ascii "EVAL") (ok : SvrOk good work.svr)
    (timed : work.svr.Timed) :
    AnsweredOnce fkCmdEval conn work ↔ ¬ ZaddMissing work args ∧ ¬ ReplyOverflows work args := by
  have dispatched := @procArgs_dispatched good fkCmdEval work _ args parsed.nonempty notEval
    ok timed.holds
  unfold AnsweredOnce
  rw [fkConnProcCmdBoth_parsed parsed, ← answer_eq_none timed.holds]
  generalize procArgs fkCmdEval args work = outcome at dispatched
  cases dispatched with
  | crashed crashes =>
      refine iff_of_false ?_ fun both => both.1 crashes
      rintro ⟨rt, reset, after, called, _⟩
      cases called
  | overflow ran queued =>
      refine iff_of_false ?_ fun both => both.2 ⟨_, ran, queueAll_eq_fault.mp queued⟩
      rintro ⟨rt, reset, after, called, _⟩
      cases called
  | @refused answer part count wbuf after ran queued cut leaves =>
      obtain ⟨first, rsp, later, middle, calls, before, refused⟩ := queueAll_err queued
      have plain := run_plain (fun _ => cmdOf_message) ran
      refine iff_of_true ⟨_, _, _, rfl, parsed.reset, .refused plain calls before refused⟩
        (returns_of_ran ran ?_)
      rw [queued]
      nofun
  | @done answer wbuf after ran queued leaves =>
      have plain := run_plain (fun _ => cmdOf_message) ran
      refine iff_of_true ⟨_, _, _, rfl, parsed.reset, .whole plain queued⟩ (returns_of_ran ran ?_)
      rw [queued]
      nofun

end Requests

/-- A parser that is done with these arguments. -/
def parsedConn (args : List Bytes) : FkConnIn where
  rbuf := fkBufCreate fkBufInitLen fkBufHighwat
  argVtr := ⟨fkVtrInitLen, args.map some⟩
  argParsed := args.length
  argCnt := args.length
  curArglen := -1
  parseDone := true

theorem parsedConn_parsed {args : List Bytes} (nonempty : args ≠ []) :
    Parsed (parsedConn args) args where
  done := rfl
  count := rfl
  slots := ⟨0, (List.append_nil _).symm⟩
  nonempty := nonempty

/-- A new client of an empty server with one database. -/
def freshWork : Work := ⟨fkSvrInit 1 false (fun _ => 0) (fun _ => 0),
  (fkConnCreate .real 1024).toFkConnOut⟩

theorem freshWork_ok : SvrOk ArgName freshWork.svr :=
  fkSystemInit_ok 1 false (fun _ => 0) (fun _ => 0)

theorem fkConnProcCmd_one_reply_exists :
    AnsweredOnce (fun _ => Act.fault) (parsedConn [ascii "EXISTS", ascii "k"]) freshWork := by
  refine (fkConnProcCmd_one_reply (parsedConn_parsed (List.cons_ne_nil _ _))
    (by decide) freshWork_ok (fkSvrInit_timed 1 false _ _)).mpr ⟨id, ?_⟩
  rintro ⟨answer, ran, overflows⟩
  cases ran
  revert overflows
  decide +kernel

/-- `ZADD` on an empty server does not return. -/
theorem fkConnProcCmd_zadd_crashes :
    Parsed (parsedConn [ascii "ZADD", ascii "z", ascii "1", ascii "a"])
        [ascii "ZADD", ascii "z", ascii "1", ascii "a"] ∧
      ¬ AnsweredOnce (fun _ => Act.fault)
        (parsedConn [ascii "ZADD", ascii "z", ascii "1", ascii "a"]) freshWork := by
  refine ⟨parsedConn_parsed (List.cons_ne_nil _ _), ?_⟩
  rintro ⟨rt, reset, after, called, _⟩
  have crashed : (fkConnProcCmdBoth (fun _ => Act.fault)
      (parsedConn [ascii "ZADD", ascii "z", ascii "1", ascii "a"]) freshWork).isNone = true :=
      by decide +kernel
  rw [called] at crashed
  cases crashed

end Freekick
