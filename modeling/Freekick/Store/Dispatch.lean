import Freekick.Store.Handlers

/-!
# What a request does

`fk_conn_proc_cmd` finds the command of a request in the table, checks the number of
its arguments, runs the handler and appends to the log.  There are four outcomes: the
handler crashes, a reply asks for a buffer whose length is not an `int`, a reply is
refused, or all of them are queued.
-/

namespace Freekick

open Lib.Call

/-! ## Requests that no handler sees -/

theorem read_unknown {fkCmdEval : Handler} {name : Bytes} {rest : List Bytes}
    (unknown : ∀ pto ∈ protos fkCmdEval, pto.name ≠ name) :
    Cmd.read name rest = .refused (ascii "Invalid Protocol") := by
  have absent : ∀ known ∈ (protos fkCmdEval).map FkProto.name, name ≠ known := by
    intro known member equal
    obtain ⟨pto, inTable, named⟩ := List.mem_map.mp member
    exact unknown pto inTable (named.trans equal.symm)
  rw [protos_names] at absent
  simp only [List.map_cons, List.map_nil, List.forall_mem_cons] at absent
  unfold Cmd.read
  simp only [absent, if_false]

theorem read_miscounted {fkCmdEval : Handler} {pto : FkProto} {rest : List Bytes}
    (member : pto ∈ protos fkCmdEval) (notEval : pto.name ≠ ascii "EVAL")
    (wrong : pto.accepts (rest.length + 1) = false) :
    Cmd.read pto.name rest = Cmd.miscounted := by
  cases pto, member using protos_cases with
  | set =>
      match rest, wrong with
      | [], _ => rfl
      | [_], _ => rfl
      | _ :: _ :: _ :: _, _ => rfl
  | setnx =>
      match rest, wrong with
      | [], _ => rfl
      | [_], _ => rfl
      | _ :: _ :: _ :: _, _ => rfl
  | setex =>
      match rest, wrong with
      | [], _ => rfl
      | [_], _ => rfl
      | [_, _], _ => rfl
      | _ :: _ :: _ :: _ :: _, _ => rfl
  | mset =>
      match rest, wrong with
      | [], _ => rfl
      | [_], _ => rfl
  | mget =>
      match rest, wrong with
      | [], _ => rfl
  | get =>
      match rest, wrong with
      | [], _ => rfl
      | _ :: _ :: _, _ => rfl
  | del =>
      match rest, wrong with
      | [], _ => rfl
  | flushdb =>
      match rest, wrong with
      | _ :: _, _ => rfl
  | existing =>
      match rest, wrong with
      | [], _ => rfl
      | _ :: _ :: _, _ => rfl
  | flushall =>
      match rest, wrong with
      | _ :: _, _ => rfl
  | hset =>
      match rest, wrong with
      | [], _ => rfl
      | [_], _ => rfl
      | [_, _], _ => rfl
      | _ :: _ :: _ :: _ :: _, _ => rfl
  | hget =>
      match rest, wrong with
      | [], _ => rfl
      | [_], _ => rfl
      | _ :: _ :: _ :: _, _ => rfl
  | lpush =>
      match rest, wrong with
      | [], _ => rfl
      | [_], _ => rfl
  | rpush =>
      match rest, wrong with
      | [], _ => rfl
      | [_], _ => rfl
  | lpop =>
      match rest, wrong with
      | [], _ => rfl
      | _ :: _ :: _, _ => rfl
  | rpop =>
      match rest, wrong with
      | [], _ => rfl
      | _ :: _ :: _, _ => rfl
  | llen =>
      match rest, wrong with
      | [], _ => rfl
      | _ :: _ :: _, _ => rfl
  | save =>
      match rest, wrong with
      | _ :: _, _ => rfl
  | select =>
      match rest, wrong with
      | [], _ => rfl
      | _ :: _ :: _, _ => rfl
  | eval => exact (notEval rfl).elim
  | zadd =>
      match rest, wrong with
      | [], _ => rfl
      | [_], _ => rfl
      | [_, _], _ => rfl

/-! ## The forms of requests -/

/-- The messages of requests that no handler sees, and of an `MSET` with an odd number of
arguments. -/
def refusals : List Bytes := [fkRspArgcErr, ascii "Invalid Protocol", ascii "Wrong Argument Number"]

/-- The form of a request and its command. -/
inductive Asks : Bytes → List Bytes → Cmd → Prop
  | set {key value : Bytes} : Asks (ascii "SET") [key, value] (.set key value)
  | setnx {key value : Bytes} : Asks (ascii "SETNX") [key, value] (.setnx key value)
  | setex {key exp value : Bytes} : Asks (ascii "SETEX") [key, exp, value] (.setex key exp value)
  | mset {rest : List Bytes} (even : rest.length % 2 = 0) :
    Asks (ascii "MSET") rest (.mset (pairs rest))
  | mget {key : Bytes} {keys : List Bytes} : Asks (ascii "MGET") (key :: keys) (.mget (key :: keys))
  | get {key : Bytes} : Asks (ascii "GET") [key] (.get key)
  | del {key : Bytes} {keys : List Bytes} : Asks (ascii "DEL") (key :: keys) (.del (key :: keys))
  | flushdb : Asks (ascii "FLUSHDB") [] .flushdb
  | existing {key : Bytes} : Asks (ascii "EXISTS") [key] (.existing key)
  | flushall : Asks (ascii "FLUSHALL") [] .flushall
  | hset {hkey key value : Bytes} : Asks (ascii "HSET") [hkey, key, value] (.hset hkey key value)
  | hget {hkey key : Bytes} : Asks (ascii "HGET") [hkey, key] (.hget hkey key)
  | lpush {key node : Bytes} {nodes : List Bytes} : Asks (ascii "LPUSH")
    (key :: node :: nodes) (.push .head key (node :: nodes))
  | rpush {key node : Bytes} {nodes : List Bytes} : Asks (ascii "RPUSH")
    (key :: node :: nodes) (.push .tail key (node :: nodes))
  | lpop {key : Bytes} : Asks (ascii "LPOP") [key] (.pop .head key)
  | rpop {key : Bytes} : Asks (ascii "RPOP") [key] (.pop .tail key)
  | llen {key : Bytes} : Asks (ascii "LLEN") [key] (.llen key)
  | save : Asks (ascii "SAVE") [] .save
  | select {text : Bytes} : Asks (ascii "SELECT") [text] (.select text)
  | zadd {key score member : Bytes} {more : List Bytes} : Asks (ascii "ZADD")
    (key :: score :: member :: more) (.zadd key (score :: member :: more).length)
  | refused {name message : Bytes} {rest : List Bytes} (known : message ∈ refusals) :
    Asks name rest (.refused message)

theorem read_asks_known {fkCmdEval : Handler} {pto : FkProto} {rest : List Bytes}
    (member : pto ∈ protos fkCmdEval) :
    Asks pto.name rest (Cmd.read pto.name rest) := by
  have miscounted : ∀ {name : Bytes} {rest : List Bytes}, Asks name rest Cmd.miscounted :=
    .refused (by decide)
  cases pto, member using protos_cases with
  | set =>
      rcases rest with _ | ⟨_, _ | ⟨_, _ | ⟨_, _⟩⟩⟩
      · exact miscounted
      · exact miscounted
      · exact .set
      · exact miscounted
  | setnx =>
      rcases rest with _ | ⟨_, _ | ⟨_, _ | ⟨_, _⟩⟩⟩
      · exact miscounted
      · exact miscounted
      · exact .setnx
      · exact miscounted
  | setex =>
      rcases rest with _ | ⟨_, _ | ⟨_, _ | ⟨_, _ | ⟨_, _⟩⟩⟩⟩
      · exact miscounted
      · exact miscounted
      · exact miscounted
      · exact .setex
      · exact miscounted
  | mset =>
      rcases rest with _ | ⟨first, _ | ⟨second, more⟩⟩
      · exact miscounted
      · exact miscounted
      · by_cases odd : (first :: second :: more).length % 2 ≠ 0
        · rw [show Cmd.read (ascii "MSET") (first :: second :: more) =
            .refused fkRspArgcErr from if_pos odd]
          exact .refused (List.mem_cons_self ..)
        · rw [show Cmd.read (ascii "MSET") (first :: second :: more) = .mset
            (pairs (first :: second :: more)) from if_neg odd]
          exact .mset (Classical.not_not.mp odd)
  | mget =>
      rcases rest with _ | ⟨_, _⟩
      · exact miscounted
      · exact .mget
  | get =>
      rcases rest with _ | ⟨_, _ | ⟨_, _⟩⟩
      · exact miscounted
      · exact .get
      · exact miscounted
  | del =>
      rcases rest with _ | ⟨_, _⟩
      · exact miscounted
      · exact .del
  | flushdb =>
      rcases rest with _ | ⟨_, _⟩
      · exact .flushdb
      · exact miscounted
  | existing =>
      rcases rest with _ | ⟨_, _ | ⟨_, _⟩⟩
      · exact miscounted
      · exact .existing
      · exact miscounted
  | flushall =>
      rcases rest with _ | ⟨_, _⟩
      · exact .flushall
      · exact miscounted
  | hset =>
      rcases rest with _ | ⟨_, _ | ⟨_, _ | ⟨_, _ | ⟨_, _⟩⟩⟩⟩
      · exact miscounted
      · exact miscounted
      · exact miscounted
      · exact .hset
      · exact miscounted
  | hget =>
      rcases rest with _ | ⟨_, _ | ⟨_, _ | ⟨_, _⟩⟩⟩
      · exact miscounted
      · exact miscounted
      · exact .hget
      · exact miscounted
  | lpush =>
      rcases rest with _ | ⟨_, _ | ⟨_, _⟩⟩
      · exact miscounted
      · exact miscounted
      · exact .lpush
  | rpush =>
      rcases rest with _ | ⟨_, _ | ⟨_, _⟩⟩
      · exact miscounted
      · exact miscounted
      · exact .rpush
  | lpop =>
      rcases rest with _ | ⟨_, _ | ⟨_, _⟩⟩
      · exact miscounted
      · exact .lpop
      · exact miscounted
  | rpop =>
      rcases rest with _ | ⟨_, _ | ⟨_, _⟩⟩
      · exact miscounted
      · exact .rpop
      · exact miscounted
  | llen =>
      rcases rest with _ | ⟨_, _ | ⟨_, _⟩⟩
      · exact miscounted
      · exact .llen
      · exact miscounted
  | save =>
      rcases rest with _ | ⟨_, _⟩
      · exact .save
      · exact miscounted
  | select =>
      rcases rest with _ | ⟨_, _ | ⟨_, _⟩⟩
      · exact miscounted
      · exact .select
      · exact miscounted
  | eval => exact .refused (by decide)
  | zadd =>
      rcases rest with _ | ⟨_, _ | ⟨_, _ | ⟨_, _⟩⟩⟩
      · exact miscounted
      · exact miscounted
      · exact miscounted
      · exact .zadd

/-- Every request has one of the forms. -/
theorem read_asks (name : Bytes) (rest : List Bytes) : Asks name rest (Cmd.read name rest) := by
  by_cases known : ∃ pto ∈ protos (fun _ => Act.fault), pto.name = name
  · obtain ⟨pto, member, rfl⟩ := known
    exact read_asks_known member
  · rw [@read_unknown (fun _ => Act.fault) name rest fun pto member named =>
      known ⟨pto, member, named⟩]
    exact .refused (by decide)

theorem cmdOf_asks (args : List Bytes) :
    Asks (fkStr2upper (args.headD [])) args.tail (cmdOf args) := read_asks _ _

theorem cmdOf_get {name : Bytes} (named : fkStr2upper name = ascii "GET") (key : Bytes) : cmdOf
    [name, key] = .get key := by
  change Cmd.read (fkStr2upper name) [key] = _
  rw [named]
  rfl

theorem cmdOf_hget {name : Bytes} (named : fkStr2upper name = ascii "HGET") (hkey key : Bytes) :
    cmdOf [name, hkey, key] = .hget hkey key := by
  change Cmd.read (fkStr2upper name) [hkey, key] = _
  rw [named]
  rfl

/-! ## The log -/

section Log

variable (fkCmdEval : Handler)

/-- What a request adds to the log once its handler succeeds. -/
def entries (work : Work) (args : List Bytes) : List (List Bytes) :=
  match fkProtoSearch fkCmdEval (fkStr2upper (args.headD [])) with
  | none => []
  | some pto =>
      if pto.accepts args.length = true ∧ work.svr.blogOn = true ∧ pto.type ≠ .read ∧
        work.out.type = .real then
        [fkStr2upper (args.headD []) :: args.tail]
      else []

/-- The work with more commands in the log. -/
def Work.log (work : Work) (commands : List (List Bytes)) : Work :=
  { work with svr := { work.svr with blog := work.svr.blog ++ commands } }

theorem Work.log_nil (work : Work) : work.log [] = work := by
  unfold Work.log
  rw [List.append_nil]

theorem blogAppend_eq (pto : FkProto) (args : List Bytes) (work : Work) :
    blogAppend pto args work = .ok () (work.log
      (if work.svr.blogOn = true ∧ pto.type ≠ .read ∧ work.out.type = .real then [args]
        else [])) := by
  change Outcome.ok () (if work.svr.blogOn = true ∧ pto.type ≠ .read ∧ work.out.type = .real then _
    else work) = _
  split
  · rfl
  · rw [Work.log_nil]

end Log

/-! ## The outcomes -/

/-- What a request can end in. -/
inductive Dispatched (fkCmdEval : Handler) (work : Work) (spaces : Nat → Keyspace)
    (args : List Bytes) : Outcome Work Unit → Prop
  | crashed (crashes : work.answer spaces (cmdOf args) = none) :
      Dispatched fkCmdEval work spaces args .fault
  | overflow {answer : Answer} (ran : work.answer spaces (cmdOf args) = some answer)
      (queued : queueAll work.svr.junk answer.reply.calls work.out.wbuf = .fault) :
      Dispatched fkCmdEval work spaces args .fault
  | refused {answer part : Answer} {count : Nat} {wbuf : FkBuf} {after : Work}
      (ran : work.answer spaces (cmdOf args) = some answer)
      (queued : queueAll work.svr.junk answer.reply.calls work.out.wbuf = .err wbuf)
      (cut : work.answer spaces ((cmdOf args).cut count) = some part)
      (leaves : Leaves work spaces ((cmdOf args).cut count) part after) :
      Dispatched fkCmdEval work spaces args (.err (after.withWbuf wbuf))
  | done {answer : Answer} {wbuf : FkBuf} {after : Work}
      (ran : work.answer spaces (cmdOf args) = some answer)
      (queued : queueAll work.svr.junk answer.reply.calls work.out.wbuf = .ok () wbuf)
      (leaves : Leaves work spaces (cmdOf args) answer after) :
      Dispatched fkCmdEval work spaces args
        (.ok () ((after.log (entries fkCmdEval work args)).withWbuf wbuf))

/-- The call ends as the calls of a reply term do on the write buffer. -/
def RepliesWith (outcome : Outcome Work Unit) (work : Work) (reply : Reply) : Prop :=
  match queueAll work.svr.junk reply.calls work.out.wbuf with
  | .ok _ wbuf => ∃ after : Work, outcome = .ok () (after.withWbuf wbuf)
  | .err wbuf => ∃ after : Work, outcome = .err (after.withWbuf wbuf)
  | .fault => outcome = .fault

section Outcomes

variable {good : Bytes → Prop} {fkCmdEval : Handler} {work : Work} {spaces : Nat → Keyspace}
  {args : List Bytes}

/-- The outcomes of a request whose answer is known. -/
theorem Dispatched.known {outcome : Outcome Work Unit} {answer : Answer}
    (dispatched : Dispatched fkCmdEval work spaces args outcome)
    (ran : work.answer spaces (cmdOf args) = some answer) :
    (outcome = .fault ∧ queueAll work.svr.junk answer.reply.calls work.out.wbuf = .fault) ∨
    (∃ wbuf after, outcome = .err (Work.withWbuf after wbuf) ∧
      queueAll work.svr.junk answer.reply.calls work.out.wbuf = .err wbuf) ∨
    ∃ wbuf after, outcome = .ok () ((Work.log after (entries fkCmdEval work args)).withWbuf wbuf) ∧
      queueAll work.svr.junk answer.reply.calls work.out.wbuf = .ok () wbuf ∧
        Leaves work spaces (cmdOf args) answer after := by
  cases dispatched with
  | crashed crashes => cases ran.symm.trans crashes
  | overflow again queued =>
      cases ran.symm.trans again
      exact .inl ⟨rfl, queued⟩
  | refused again queued cut leaves =>
      cases ran.symm.trans again
      exact .inr (.inl ⟨_, _, rfl, queued⟩)
  | done again queued leaves =>
      cases ran.symm.trans again
      exact .inr (.inr ⟨_, _, rfl, queued, leaves⟩)

theorem Dispatched.repliesWith {outcome : Outcome Work Unit} {answer : Answer}
    (dispatched : Dispatched fkCmdEval work spaces args outcome)
    (ran : work.answer spaces (cmdOf args) = some answer) :
    RepliesWith outcome work answer.reply := by
  unfold RepliesWith
  rcases dispatched.known ran with ⟨rfl, queued⟩ | ⟨wbuf, after, rfl, queued⟩ |
      ⟨wbuf, after, rfl, queued, _⟩
  · rw [queued]
  · rw [queued]
    exact ⟨after, rfl⟩
  · rw [queued]
    exact ⟨_, rfl⟩

/-- A call that refines the command and adds the entries of the request to the log. -/
theorem dispatched_of_refines {act : Act Work Unit} (refines : Refines act work spaces (cmdOf args))
    {log : Act Work Unit}
    (logged : ∀ after, after.svr.frame = work.svr.frame → after.out.type = work.out.type →
      log after = .ok () (after.log (entries fkCmdEval work args))) :
    Dispatched fkCmdEval work spaces args ((act >>= fun _ => log) work) := by
  unfold Refines at refines
  split at refines
  · next crashes =>
      rw [Act.bind_fault refines]
      exact .crashed crashes
  · next answer ran =>
      cases queued : queueAll work.svr.junk answer.reply.calls work.out.wbuf with
      | ok value wbuf =>
          rw [queued] at refines
          obtain ⟨after, called, leaves⟩ := refines
          rw [Act.bind_ok called, logged (after.withWbuf wbuf) leaves.frame leaves.type]
          change Dispatched fkCmdEval work spaces args (.ok () ((after.log _).withWbuf wbuf))
          exact .done ran queued leaves
      | err wbuf =>
          rw [queued] at refines
          obtain ⟨count, part, after, cut, called, leaves⟩ := refines
          rw [Act.bind_err called]
          exact .refused ran queued cut leaves
      | fault =>
          rw [queued] at refines
          rw [Act.bind_fault refines]
          exact .overflow ran queued

theorem refusal_dispatched {message : Bytes} (holds : Holds work.svr spaces)
    (known : cmdOf args = .refused message) (unlogged : entries fkCmdEval work args = []) :
    Dispatched fkCmdEval work spaces args (fkConnAddErrorRsp message work) := by
  have refines : Refines (fkConnAddErrorRsp message) work spaces (cmdOf args) := by
    rw [known]
    exact refines_say (.error message) (.error message) rfl holds rfl rfl rfl
  have both := @dispatched_of_refines fkCmdEval work spaces args _ refines
    (pure ()) fun after _ _ => by
    rw [unlogged, Work.log_nil]
    rfl
  rwa [Act.bind_unit] at both

/-- A request with a name, other than `EVAL`. -/
theorem procArgs_dispatched (nonempty : args ≠ [])
    (notEval : fkStr2upper (args.headD []) ≠ ascii "EVAL")
    (ok : SvrOk good work.svr) (holds : Holds work.svr spaces) :
    Dispatched fkCmdEval work spaces args (procArgs fkCmdEval args work) := by
  cases args with
  | nil => exact (nonempty rfl).elim
  | cons first rest =>
      change fkStr2upper first ≠ _ at notEval
      unfold procArgs
      dsimp only
      cases found : fkProtoSearch fkCmdEval (fkStr2upper first) with
      | none =>
          refine refusal_dispatched holds (read_unknown (fkProtoSearch_eq_none fkCmdEval found)) ?_
          unfold entries
          rw [List.headD_cons, found]
      | some pto =>
          obtain ⟨member, known⟩ := (fkProtoSearch_eq_some fkCmdEval).mp found
          have logged : ∀ accepted, pto.accepts (first :: rest).length = accepted →
              entries fkCmdEval work (first :: rest) = if accepted = true ∧ work.svr.blogOn = true ∧
                pto.type ≠ .read ∧ work.out.type = .real then [fkStr2upper first :: rest]
                  else [] := by
            intro accepted counted
            unfold entries
            rw [List.headD_cons, found]
            dsimp only
            rw [counted]
            rfl
          rw [← known] at notEval
          dsimp only
          cases counted : pto.accepts (first :: rest).length with
          | false =>
              have command : cmdOf (first :: rest) = Cmd.miscounted := by
                change Cmd.read (fkStr2upper first) rest = _
                rw [← known]
                exact read_miscounted member notEval counted
              refine refusal_dispatched holds command ?_
              rw [logged false counted, if_neg (fun all => absurd all.1 (by decide))]
          | true =>
              have refines := @handler_refines fkCmdEval pto rest work spaces member notEval counted
                ok.svrWf holds
              rw [known] at refines
              refine dispatched_of_refines refines fun after frame type => ?_
              have logOn : after.svr.blogOn = work.svr.blogOn :=
                congrArg (fun parts => parts.2.2.1) frame
              rw [blogAppend_eq, logOn, type, logged true counted]
              simp only [true_and]

end Outcomes

end Freekick
