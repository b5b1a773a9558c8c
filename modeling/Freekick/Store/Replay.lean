import Freekick.Store.Refused

/-!
# Replaying the binary log

The log is one list for all clients, and the replay runs it on one connection.  Each
write therefore lands in the database of the last `SELECT` in the log.  As long as
this is the database it was meant for, and no write stays unlogged because its reply
was refused, the replay rebuilds the databases.
-/

namespace Freekick

open Lib.Call

/-! ## The log -/

/-- The database that a logged command selects. -/
def selected (dbcnt : Nat) (args : List Bytes) : Option Nat :=
  match args with
  | [name, text] =>
      if name = ascii "SELECT" ∧ 0 ≤ atoi text ∧
        atoi text < dbcnt then some (atoi text).toNat else none
  | _ => none

/-- The database that is selected after the log was run on one connection. -/
def logDb (dbcnt : Nat) (log : List (List Bytes)) : Nat :=
  log.foldl (fun idx args => (selected dbcnt args).getD idx) 0

theorem logDb_append (dbcnt : Nat) (log : List (List Bytes)) (args : List Bytes) :
    logDb dbcnt (log ++ [args]) = (selected dbcnt args).getD (logDb dbcnt log) :=
  List.foldl_append

section Replay

variable (fkCmdEval : Handler)

/-- Run a list of commands on one connection; nothing when one of them fails. -/
def replay : Work → List (List Bytes) → Option Work
  | work, [] => some work
  | work, args :: rest =>
      match fkConnProcCmd fkCmdEval work (args.map some) with
      | some (.ok, next) => replay next rest
      | _ => none

theorem replay_append (work : Work) (log : List (List Bytes)) (args : List Bytes) :
    replay fkCmdEval work (log ++ [args]) =
      (replay fkCmdEval work log).bind fun last => replay fkCmdEval last [args] := by
  induction log generalizing work with
  | nil => rfl
  | cons first rest ih =>
      rw [List.cons_append, replay, replay]
      split
      · exact ih _
      · rfl

theorem replay_one {work next : Work} {args : List Bytes}
    (called : procArgs fkCmdEval args work = .ok () next) :
    replay fkCmdEval work [args] = some next := by
  rw [replay, fkConnProcCmd_args, called]
  rfl

/-! ## The condition -/

/-- `fk_conn_proc_cmd` runs a command of the type `FK_PROTO_WRITE`. -/
def isWrite (name : Bytes) (argCnt : Nat) : Bool :=
  match fkProtoSearch fkCmdEval name with
  | some pto => pto.accepts argCnt && pto.type == .write
  | none => false

theorem isWrite_eq {pto : FkProto} {argCnt : Nat} (member : pto ∈ protos fkCmdEval)
    (counted : pto.accepts argCnt = true) (writes : pto.type = .write) :
    isWrite fkCmdEval pto.name argCnt = true := by
  have found : fkProtoSearch fkCmdEval pto.name = some pto :=
    (fkProtoSearch_eq_some fkCmdEval).mpr ⟨member, rfl⟩
  unfold isWrite
  rw [found]
  change (pto.accepts argCnt && pto.type == .write) = true
  rw [counted, writes]
  decide

/-- A write that depends on the selected database finds the one that the log selects, and
a reply that comes after a write is not refused. -/
structure CommandFits (svr : FkSvr) (out : FkConnOut) (name : Bytes)
    (rest : List Bytes) : Prop where
  idx : isWrite fkCmdEval name (rest.length + 1) = true →
    name ∉ [ascii "SELECT", ascii "FLUSHALL"] → out.dbIdx = logDb svr.dbcnt svr.blog
  reply : isWrite fkCmdEval name (rest.length + 1) = true → WriteAccepted svr out name rest

/-- The condition on the state before an event. -/
def EventFits (sys : FkSystem) : Event → Prop
  | .command client args => ∀ out ∈ sys.conns client,
      CommandFits fkCmdEval sys.svr out (fkStr2upper (args.headD [])) args.tail
  | _ => True

/-- Every event of a run meets the condition in the state it finds. -/
def RunFits (maxWbuf : Nat) : FkSystem → List Event → Prop
  | _, [] => True
  | sys, event :: rest => EventFits fkCmdEval sys event ∧
      ∀ next ∈ sys.step fkCmdEval maxWbuf event, RunFits maxWbuf next rest

instance (svr : FkSvr) (out : FkConnOut) (name : Bytes) (rest : List Bytes) :
    Decidable (CommandFits fkCmdEval svr out name rest) :=
  decidable_of_iff ((isWrite fkCmdEval name (rest.length + 1) = true →
      name ∉ [ascii "SELECT", ascii "FLUSHALL"] → out.dbIdx = logDb svr.dbcnt svr.blog) ∧
    (isWrite fkCmdEval name (rest.length + 1) = true → WriteAccepted svr out name rest))
    ⟨fun both => ⟨both.1, both.2⟩, fun fits => ⟨fits.idx, fits.reply⟩⟩

instance (sys : FkSystem) (event : Event) : Decidable (EventFits fkCmdEval sys event) :=
  match event with
  | .command client args => inferInstanceAs (Decidable (∀ out ∈ sys.conns client,
      CommandFits fkCmdEval sys.svr out (fkStr2upper (args.headD [])) args.tail))
  | .connect _ => isTrue trivial
  | .sent _ _ => isTrue trivial
  | .close _ => isTrue trivial

instance decidableRunFits (maxWbuf : Nat) (sys : FkSystem) (events : List Event) :
    Decidable (RunFits fkCmdEval maxWbuf sys events) :=
  match events with
  | [] => isTrue trivial
  | event :: rest =>
      have (next : FkSystem) : Decidable (RunFits fkCmdEval maxWbuf next rest) :=
        decidableRunFits maxWbuf next rest
      inferInstanceAs (Decidable (EventFits fkCmdEval sys event ∧
        ∀ next ∈ sys.step fkCmdEval maxWbuf event, RunFits fkCmdEval maxWbuf next rest))

end Replay

/-- A command of the table other than `SETEX`, `EVAL` and `ZADD`, with any arguments. -/
structure Replayable (args : List Bytes) : Prop extends Admitted args where
  notSetex : fkStr2upper (args.headD []) ≠ ascii "SETEX"
  notZadd : fkStr2upper (args.headD []) ≠ ascii "ZADD"

def Event.Replayable : Event → Prop
  | .command _ args => Freekick.Replayable args
  | _ => True

/-! ## One command on both servers -/

section Mirrored

variable {fkCmdEval : Handler} {pto : FkProto} {rest : List Bytes}

theorem handler_mirrors {leftIdx rightIdx : Nat} (member : pto ∈ protos fkCmdEval)
    (writes : pto.type = .write) (notSetex : pto.name ≠ ascii "SETEX")
    (notZadd : pto.name ≠ ascii "ZADD") (notSelect : pto.name ≠ ascii "SELECT")
    (fits : ArgsFit (pto.name :: rest)) (same : pto.name ≠ ascii "FLUSHALL" → leftIdx = rightIdx) :
    Mirrors leftIdx rightIdx Done replyMax (pto.handler (pto.name :: rest))
      (pto.handler (pto.name :: rest)) := by
  cases pto, member using protos_cases with
  | set =>
      obtain rfl := same (by decide)
      exact fkCmdSet_mirrors fits
  | setnx =>
      obtain rfl := same (by decide)
      exact fkCmdSetnx_mirrors fits
  | setex => exact (notSetex rfl).elim
  | mset =>
      obtain rfl := same (by decide)
      exact fkCmdMset_mirrors fits
  | del =>
      obtain rfl := same (by decide)
      exact fkCmdDel_mirrors
  | flushdb =>
      obtain rfl := same (by decide)
      exact @fkCmdFlushdb_mirrors leftIdx (ascii "FLUSHDB" :: rest)
  | flushall => exact @fkCmdFlushall_mirrors leftIdx rightIdx (ascii "FLUSHALL" :: rest)
  | hset =>
      obtain rfl := same (by decide)
      exact fkCmdHset_mirrors fits
  | lpush =>
      obtain rfl := same (by decide)
      exact fkCmdGenericPush_mirrors .head fits
  | rpush =>
      obtain rfl := same (by decide)
      exact fkCmdGenericPush_mirrors .tail fits
  | lpop =>
      obtain rfl := same (by decide)
      exact fkCmdGenericPop_mirrors .head
  | rpop =>
      obtain rfl := same (by decide)
      exact fkCmdGenericPop_mirrors .tail
  | select => exact (notSelect rfl).elim
  | zadd => exact (notZadd rfl).elim
  | _ => cases writes

/-- `SELECT` moves the second connection to the database that the log selects. -/
theorem fkCmdSelect_mirrors {text : Bytes} {svr : FkSvr} {out : FkConnOut} {last after : Work}
    (svrs : SvrMatch svr last.svr) (room : replyMax ≤ last.room)
    (called : fkCmdSelect [ascii "SELECT", text] ⟨svr, out⟩ = .ok () after) :
    ∃ final, fkCmdSelect [ascii "SELECT", text] last = .ok () final ∧ SvrMatch after.svr final.svr ∧
      final.out.dbIdx = (selected svr.dbcnt [ascii "SELECT", text]).getD last.out.dbIdx ∧
      last.room ≤ final.room + replyMax := by
  have chosen : selected svr.dbcnt [ascii "SELECT", text] =
      if ascii "SELECT" = ascii "SELECT" ∧ 0 ≤ atoi text ∧
        atoi text < svr.dbcnt then some (atoi text).toNat
      else none := rfl
  unfold fkCmdSelect at called ⊢
  rw [getArg_bind rfl, Act.read_bind] at called ⊢
  dsimp only at called ⊢
  rw [← svrs.dbcnt, chosen]
  by_cases outside : atoi text < 0 ∨ (svr.dbcnt : Int) ≤ atoi text
  · rw [if_pos outside] at called ⊢
    rw [if_neg (by omega)]
    have reply : Mirrors out.dbIdx last.out.dbIdx Done 8 (fkConnAddErrorRsp fkRspErr)
        (fkConnAddErrorRsp fkRspErr) :=
      addRsp_mirrors _ _ _ _
    obtain ⟨_, final, replied, _, paired, used⟩ :=
      reply ⟨svr, out⟩ last ⟨svrs, rfl, rfl⟩ (Nat.le_trans (by decide) room) () after called
    exact ⟨final, replied, paired.svrs, paired.right_idx,
      Nat.le_trans used (Nat.add_le_add_left (by decide) _)⟩
  · rw [if_neg outside] at called ⊢
    rw [if_pos ⟨rfl, by omega⟩]
    have reply : Mirrors (atoi text).toNat (atoi text).toNat Done 5 (fkConnAddStatusRsp fkRspOk)
      (fkConnAddStatusRsp fkRspOk) := statusOk_mirrors
    obtain ⟨_, final, replied, _, paired, used⟩ :=
      reply ⟨svr, { out with dbIdx := (atoi text).toNat }⟩
        ⟨last.svr, { last.out with dbIdx := (atoi text).toNat }⟩ ⟨svrs, rfl, rfl⟩
        (Nat.le_trans (by decide) room) () after called
    exact ⟨final, replied, paired.svrs, paired.right_idx,
      Nat.le_trans used (Nat.add_le_add_left (by decide) _)⟩

theorem selected_of_ne {dbcnt : Nat} {name : Bytes} (other : name ≠ ascii "SELECT") :
    selected dbcnt (name :: rest) = none := by
  unfold selected
  split
  · next given =>
      obtain ⟨rfl, rfl⟩ := List.cons.inj given
      exact if_neg fun both => other both.1
  · rfl

/-- A fake connection runs the handler and logs nothing. -/
theorem procArgs_fake {last final : Work} (member : pto ∈ protos fkCmdEval)
    (counted : pto.accepts (rest.length + 1) = true) (fake : final.out.type = .fake)
    (called : pto.handler (pto.name :: rest) last = .ok () final) :
    procArgs fkCmdEval (pto.name :: rest) last = .ok () final := by
  have found : fkProtoSearch fkCmdEval pto.name = some pto :=
    (fkProtoSearch_eq_some fkCmdEval).mpr ⟨member, rfl⟩
  unfold procArgs
  dsimp only
  rw [protos_upper fkCmdEval member, found]
  dsimp only
  rw [List.length_cons, if_pos counted, Act.bind_ok called]
  have quiet : ¬ (final.svr.blogOn = true ∧ pto.type ≠ .read ∧ final.out.type = .real) := by
    rintro ⟨_, _, real⟩
    rw [fake] at real
    cases real
  exact congrArg (Outcome.ok ()) (if_neg quiet)

/-- A write that succeeds is followed by the replay. -/
theorem replay_write {svr : FkSvr} {out : FkConnOut} {last after : Work}
    (member : pto ∈ protos fkCmdEval) (writes : pto.type = .write)
    (counted : pto.accepts (rest.length + 1) = true)
    (notSetex : pto.name ≠ ascii "SETEX") (notZadd : pto.name ≠ ascii "ZADD")
    (fits : ArgsFit (pto.name :: rest)) (svrs : SvrMatch svr last.svr)
    (fake : last.out.type = .fake)
    (same : pto.name ∉ [ascii "SELECT", ascii "FLUSHALL"] → out.dbIdx = last.out.dbIdx)
    (room : replyMax ≤ last.room)
    (called : pto.handler (pto.name :: rest) ⟨svr, out⟩ = .ok () after) :
    ∃ final, procArgs fkCmdEval (pto.name :: rest) last = .ok () final ∧
      SvrMatch after.svr final.svr ∧
      final.out.dbIdx = (selected svr.dbcnt (pto.name :: rest)).getD last.out.dbIdx ∧
      final.out.type = .fake ∧ last.room ≤ final.room + replyMax := by
  obtain ⟨final, ran, matched, idx, used⟩ :
      ∃ final, pto.handler (pto.name :: rest) last = .ok () final ∧ SvrMatch after.svr final.svr ∧
        final.out.dbIdx = (selected svr.dbcnt (pto.name :: rest)).getD last.out.dbIdx ∧
        last.room ≤ final.room + replyMax := by
    by_cases select : pto.name = ascii "SELECT"
    · obtain rfl : pto = ⟨ascii "SELECT", .write, 2, fkCmdSelect⟩ :=
        protos_unique fkCmdEval member (by simp [protos]) select
      obtain ⟨text, rfl⟩ := List.length_eq_one_iff.mp (accepts_rest counted (by decide))
      exact fkCmdSelect_mirrors svrs room called
    · have mirrors : Mirrors out.dbIdx last.out.dbIdx Done replyMax (pto.handler (pto.name :: rest))
          (pto.handler (pto.name :: rest)) := by
        refine handler_mirrors member writes notSetex notZadd select fits fun other => same ?_
        simp only [List.mem_cons, List.not_mem_nil, or_false, not_or]
        exact ⟨select, other⟩
      obtain ⟨_, final, ran, _, paired, used⟩ :=
        mirrors ⟨svr, out⟩ last ⟨svrs, rfl, rfl⟩ room () after called
      rw [selected_of_ne select]
      exact ⟨final, ran, paired.svrs, paired.right_idx, used⟩
  have rightOk : SvrOk ArgName last.svr := by
    intro isexp wanted
    cases isexp with
    | false => exact (svrs.dbs wanted).right_ok
    | true =>
        change DbOk ArgName (last.svr.expdb wanted)
        rw [svrs.right_exp]
        exact fkDictCreate_ok
  have notEval : pto.name ≠ ascii "EVAL" := by
    intro eval
    have entry : pto = ⟨ascii "EVAL", .script, -3, fkCmdEval⟩ :=
      protos_unique fkCmdEval member (by simp [protos]) eval
    rw [entry] at writes
    cases writes
  have kept := (handler_keeps member notEval fits
    (fun name inside => fits name (List.mem_cons_of_mem _ (mem_of_mem_storedNames inside))) last
    ⟨rightOk, rfl⟩).1 () final ran
  have type : final.out.type = .fake := (congrArg Fixed.type kept.same).trans fake
  exact ⟨final, procArgs_fake member counted type ran, matched, idx, type, used⟩

end Mirrored

/-! ## The run and its replay -/

/-- The replay of the log so far ended in a matching server, on the database that the log
selects. -/
structure Replayed (fkCmdEval : Handler) (start : Work) (svr : FkSvr) (last : Work) : Prop where
  ran : replay fkCmdEval start svr.blog = some last
  svrs : SvrMatch svr last.svr
  idx : last.out.dbIdx = logDb svr.dbcnt svr.blog
  fake : last.out.type = .fake
  room : start.room ≤ last.room + svr.blog.length * replyMax

/-- With enough space for all replies the log replays. -/
def Replays (fkCmdEval : Handler) (start : Work) (svr : FkSvr) : Prop :=
  svr.blog.length * replyMax ≤ start.room → ∃ last, Replayed fkCmdEval start svr last

section Step

variable {fkCmdEval : Handler} {start : Work} {svr changed : FkSvr}

/-- A step that changes neither a database nor the log, as long as no key has a time limit. -/
theorem Replays.of_same (replays : Replays fkCmdEval start svr)
    (unchanged : (∀ idx, svr.expdb idx = fkDictCreate) →
      ∀ isexp idx, changed.dict isexp idx = svr.dict isexp idx)
    (dbcnt : changed.dbcnt = svr.dbcnt) (blog : changed.blog = svr.blog) :
    Replays fkCmdEval start changed := by
  intro enough
  rw [blog] at enough
  obtain ⟨last, ran, svrs, idx, fake, room⟩ := replays enough
  have dicts := unchanged svrs.left_exp
  refine ⟨last, by rwa [blog], ?_, by rwa [dbcnt, blog], fake, by rwa [blog]⟩
  refine ⟨dbcnt.trans svrs.dbcnt, fun wanted => ?_, fun wanted => ?_, svrs.right_exp⟩
  · have same : changed.db wanted = svr.db wanted := dicts false wanted
    rw [same]
    exact svrs.dbs wanted
  · exact (dicts true wanted).trans (svrs.left_exp wanted)

/-- A write that was logged. -/
theorem Replays.of_logged {pto : FkProto} {rest : List Bytes} {out : FkConnOut} {after : Work}
    (replays : Replays fkCmdEval start svr) (member : pto ∈ protos fkCmdEval)
    (writes : pto.type = .write) (counted : pto.accepts (rest.length + 1) = true)
    (notSetex : pto.name ≠ ascii "SETEX") (notZadd : pto.name ≠ ascii "ZADD")
    (fits : ArgsFit (pto.name :: rest))
    (same : pto.name ∉ [ascii "SELECT", ascii "FLUSHALL"] → out.dbIdx = logDb svr.dbcnt svr.blog)
    (called : pto.handler (pto.name :: rest) ⟨svr, out⟩ = .ok () after)
    (blog : after.svr.blog = svr.blog) (dbcnt : after.svr.dbcnt = svr.dbcnt) :
    Replays fkCmdEval start { after.svr with blog := after.svr.blog ++ [pto.name :: rest] } := by
  intro enough
  dsimp only at enough
  rw [blog, List.length_append, List.length_singleton, Nat.add_mul, Nat.one_mul] at enough
  obtain ⟨last, ran, svrs, idx, fake, room⟩ := replays (by omega)
  obtain ⟨final, called', matched, final_idx, type, used⟩ :=
    replay_write member writes counted notSetex notZadd fits svrs fake
      (fun other => (same other).trans idx.symm) (by omega) called
  refine ⟨final, ?_, ⟨matched.dbcnt, matched.dbs, matched.left_exp, matched.right_exp⟩,
    ?_, type, ?_⟩
  · dsimp only
    rw [blog, replay_append, ran, Option.bind_some, replay_one fkCmdEval called']
  · dsimp only
    rw [blog, logDb_append, dbcnt, final_idx, idx]
  · dsimp only
    rw [blog, List.length_append, List.length_singleton, Nat.add_mul, Nat.one_mul]
    omega

/-- What a command keeps for the replay, whether it succeeds or fails. -/
structure Logged (fkCmdEval : Handler) (start : Work) (work : Work) : Prop where
  on : work.svr.blogOn = true
  real : work.out.type = .real
  replays : Replays fkCmdEval start work.svr

theorem addRsp_logged (text : Bytes) (len : Nat) :
    Act.Keeps (Logged fkCmdEval start) (addRsp text len) :=
  addRsp_keeps (fun _ _ logged => ⟨logged.on, logged.real, logged.replays⟩) text len

/-- A handler with the log entry that follows it. -/
def handleAndLog (pto : FkProto) (rest : List Bytes) : Act Work Unit :=
  pto.handler (pto.name :: rest) >>= fun _ => blogAppend pto (pto.name :: rest)

section Entry

variable {pto : FkProto} {rest : List Bytes} {out : FkConnOut} {after : Work}

/-- The handler leaves the settings, the log and the type of the connection alone. -/
theorem handler_fixed (ok : SvrOk ArgName svr) (member : pto ∈ protos fkCmdEval)
    (notEval : pto.name ≠ ascii "EVAL") (fits : ArgsFit (pto.name :: rest)) :
    (∀ after, pto.handler (pto.name :: rest) ⟨svr, out⟩ = .ok () after →
      after.fixed = Work.fixed ⟨svr, out⟩) ∧ ∀ after, pto.handler (pto.name :: rest) ⟨svr, out⟩ =
      .err after → after.fixed = Work.fixed ⟨svr, out⟩ := by
  have kept := handler_keeps member notEval fits
    (fun name inside => fits name (List.mem_cons_of_mem _ (mem_of_mem_storedNames inside)))
      ⟨svr, out⟩ ⟨ok, rfl⟩
  exact ⟨fun after called => (kept.1 () after called).same, fun after called =>
    (kept.2 after called).same⟩

theorem Logged.of_fixed (logged : Logged fkCmdEval start ⟨svr, out⟩)
    (fixed : after.fixed = Work.fixed ⟨svr, out⟩)
    (dicts : (∀ idx, svr.expdb idx = fkDictCreate) → SameDicts svr after) :
    Logged fkCmdEval start after where
  on := (congrArg Fixed.blogOn fixed).trans logged.on
  real := (congrArg Fixed.type fixed).trans logged.real
  replays := logged.replays.of_same dicts (congrArg Fixed.dbcnt fixed) (congrArg Fixed.blog fixed)

/-- A read command changes nothing and is not logged. -/
theorem read_logged (ok : SvrOk ArgName svr) (logged : Logged fkCmdEval start ⟨svr, out⟩)
    (member : pto ∈ protos fkCmdEval) (reads : pto.type = .read) (notEval : pto.name ≠ ascii "EVAL")
    (fits : ArgsFit (pto.name :: rest)) :
    (∀ after, handleAndLog pto rest ⟨svr, out⟩ = .ok () after → Logged fkCmdEval start after) ∧
      ∀ after, handleAndLog pto rest ⟨svr, out⟩ = .err after → Logged fkCmdEval start after := by
  have fixed := @handler_fixed fkCmdEval svr pto rest out ok member notEval fits
  refine ⟨fun after called => ?_, fun after called => ?_⟩
  · obtain ⟨_, between, ran, appended⟩ := Act.bind_eq_ok called
    have same : after = between := by
      cases appended
      exact if_neg fun conditions => conditions.2.1 reads
    rw [same]
    refine logged.of_fixed (fixed.1 between ran) fun empty => ?_
    exact (handler_sameDicts member reads empty ⟨svr, out⟩ fun _ _ => rfl).1 () between ran
  · rcases Act.bind_eq_err called with failed | ⟨_, between, _, appended⟩
    · refine logged.of_fixed (fixed.2 after failed) fun empty => ?_
      exact (handler_sameDicts member reads empty ⟨svr, out⟩ fun _ _ => rfl).2 after failed
    · cases appended

/-- A write command is logged when it succeeds and has changed nothing when it fails. -/
theorem write_logged (ok : SvrOk ArgName svr) (logged : Logged fkCmdEval start ⟨svr, out⟩)
    (member : pto ∈ protos fkCmdEval) (writes : pto.type = .write)
    (counted : pto.accepts (rest.length + 1) = true) (notSetex : pto.name ≠ ascii "SETEX")
    (notZadd : pto.name ≠ ascii "ZADD") (notEval : pto.name ≠ ascii "EVAL")
    (fits : ArgsFit (pto.name :: rest))
    (idx : pto.name ∉ [ascii "SELECT", ascii "FLUSHALL"] → out.dbIdx = logDb svr.dbcnt svr.blog)
    (accepted : WriteAccepted svr out pto.name rest) :
    (∀ after, handleAndLog pto rest ⟨svr, out⟩ = .ok () after → Logged fkCmdEval start after) ∧
      ∀ after, handleAndLog pto rest ⟨svr, out⟩ = .err after → Logged fkCmdEval start after := by
  have fixed := @handler_fixed fkCmdEval svr pto rest out ok member notEval fits
  refine ⟨fun after called => ?_, fun after called => ?_⟩
  · obtain ⟨_, between, ran, appended⟩ := Act.bind_eq_ok called
    have same := fixed.1 between ran
    have on : between.svr.blogOn = true := (congrArg Fixed.blogOn same).trans logged.on
    have real : between.out.type = .real := (congrArg Fixed.type same).trans logged.real
    have entered : after = { between with
        svr := { between.svr with blog := between.svr.blog ++ [pto.name :: rest] } } := by
      cases appended
      exact if_pos ⟨on, by rw [writes]; decide, real⟩
    rw [entered]
    exact ⟨on, real, logged.replays.of_logged member writes counted notSetex notZadd fits idx ran
      (congrArg Fixed.blog same) (congrArg Fixed.dbcnt same)⟩
  · rcases Act.bind_eq_err called with failed | ⟨_, between, _, appended⟩
    · have unchanged := handler_err member writes counted notSetex notZadd accepted failed
      refine logged.of_fixed (fixed.2 after failed) fun _ isexp wanted => ?_
      rw [unchanged]
    · cases appended

end Entry

theorem procArgs_logged {first : Bytes} {rest : List Bytes} {out : FkConnOut}
    (ok : SvrOk ArgName svr) (logged : Logged fkCmdEval start ⟨svr, out⟩)
    (replayable : Replayable (first :: rest))
    (fits : CommandFits fkCmdEval svr out (fkStr2upper first) rest) :
    (∀ after, procArgs fkCmdEval (first :: rest) ⟨svr, out⟩ = .ok () after →
      Logged fkCmdEval start after) ∧ ∀ after, procArgs fkCmdEval (first :: rest) ⟨svr, out⟩ =
      .err after → Logged fkCmdEval start after := by
  obtain ⟨⟨_, _, argsFit, notEval⟩, notSetex, notZadd⟩ := replayable
  have upperFits := argsFit.upper
  dsimp only [List.headD_cons] at notEval notSetex notZadd
  rcases procArgs_cases fkCmdEval first rest with ⟨text, len, rejects⟩ |
      ⟨pto, member, known, counted, runs⟩
  · rw [rejects]
    have kept := addRsp_logged text len ⟨svr, out⟩ logged
    exact ⟨kept.1 (), kept.2⟩
  · rw [← known] at notEval notSetex notZadd upperFits fits
    rw [runs]
    cases type : pto.type with
    | read => exact read_logged ok logged member type notEval upperFits
    | write =>
        have written := isWrite_eq fkCmdEval member counted type
        exact write_logged ok logged member type counted notSetex notZadd notEval upperFits
          (fits.idx written) (fits.reply written)
    | script => exact (notEval (protos_script fkCmdEval member type)).elim

end Step

/-- What holds in every state of a run that meets the condition. -/
structure LogKept (fkCmdEval : Handler) (start : Work) (sys : FkSystem) : Prop where
  ok : SvrOk ArgName sys.svr
  on : sys.svr.blogOn = true
  real : ∀ client out, sys.conns client = some out → out.type = .real
  replays : Replays fkCmdEval start sys.svr

section Run

variable {fkCmdEval : Handler} {maxWbuf : Nat} {start : Work} {sys next : FkSystem}

theorem command_logKept {client : Nat} {args : List Bytes} (kept : LogKept fkCmdEval start sys)
    (replayable : Replayable args) (fits : EventFits fkCmdEval sys (.command client args))
    (stepped : sys.command fkCmdEval client args = some next) : LogKept fkCmdEval start next := by
  obtain ⟨first, rest, rfl⟩ := List.exists_cons_of_ne_nil replayable.nonempty
  have ok := FkSystem.command_svr
    (procArgs_keeps replayable.notEval replayable.fits fun name member =>
      replayable.fits name (List.mem_of_mem_tail (mem_of_mem_storedNames member))) kept.ok stepped
  unfold FkSystem.command at stepped
  split at stepped
  · cases stepped
    exact kept
  · next out connected =>
      have logged : Logged fkCmdEval start ⟨sys.svr, out⟩ :=
        ⟨kept.on, kept.real client out connected, kept.replays⟩
      obtain ⟨fine, failing⟩ := procArgs_logged kept.ok logged replayable (fits out connected)
      rw [fkConnProcCmd_args] at stepped
      cases called : procArgs fkCmdEval (first :: rest) ⟨sys.svr, out⟩ with
      | ok value work =>
          rw [called] at stepped
          obtain ⟨on, real, replays⟩ := fine work called
          cases stepped
          refine ⟨ok, on, FkSystem.each_setConn kept.real fun out given => ?_, replays⟩
          rw [← Option.some.inj given]
          exact real
      | err work =>
          rw [called] at stepped
          obtain ⟨on, _, replays⟩ := failing work called
          cases stepped
          exact ⟨ok, on, FkSystem.each_setConn kept.real (fun _ given => nomatch given), replays⟩
      | fault =>
          rw [called] at stepped
          cases stepped

theorem step_logKept {event : Event} (kept : LogKept fkCmdEval start sys)
    (replayable : event.Replayable) (fits : EventFits fkCmdEval sys event)
    (stepped : sys.step fkCmdEval maxWbuf event = some next) :
    LogKept fkCmdEval start next := by
  cases event with
  | connect client =>
      cases stepped
      refine ⟨kept.ok, kept.on, FkSystem.each_setConn kept.real fun out given => ?_, kept.replays⟩
      rw [← Option.some.inj given]
      rfl
  | command client args => exact command_logKept kept replayable fits stepped
  | sent client count =>
      cases stepped
      refine ⟨kept.ok, kept.on, FkSystem.each_setConn kept.real fun out given => ?_, kept.replays⟩
      obtain ⟨before, connected, rfl⟩ := Option.map_eq_some_iff.mp given
      exact kept.real client before connected
  | close client =>
      cases stepped
      exact ⟨kept.ok, kept.on, FkSystem.each_setConn kept.real (fun _ given => nomatch given),
        kept.replays⟩

theorem run_logKept {events : List Event} (kept : LogKept fkCmdEval start sys)
    (replayable : ∀ event ∈ events, event.Replayable) (fits : RunFits fkCmdEval maxWbuf sys events)
    (reached : sys.run fkCmdEval maxWbuf events = some next) : LogKept fkCmdEval start next := by
  induction events generalizing sys with
  | nil =>
      cases reached
      exact kept
  | cons event rest ih =>
      obtain ⟨middle, stepped, later⟩ := Option.bind_eq_some_iff.mp reached
      have between := step_logKept kept (replayable event (List.mem_cons_self ..)) fits.1 stepped
      exact ih between (fun other member => replayable other (List.mem_cons_of_mem _ member))
        (fits.2 middle stepped) later

theorem logKept_init {dbcnt : Nat} {clock clock' : Nat → Int} {junk junk' : Nat → UInt8}
    {blogOn : Bool} {out : FkConnOut} (fake : out.type = .fake) (first : out.dbIdx = 0) :
    LogKept fkCmdEval ⟨fkSvrInit dbcnt blogOn clock' junk', out⟩
      (fkSystemInit dbcnt true clock junk) where
  ok := fkSystemInit_ok dbcnt true clock junk
  on := rfl
  real := by
    intro client out connected
    cases connected
  replays := by
    intro _
    refine ⟨⟨fkSvrInit dbcnt blogOn clock' junk', out⟩, rfl, ?_, first, fake, Nat.le_add_right _ _⟩
    exact ⟨rfl, fun _ => DbMatch.empty, fun _ => rfl, fun _ => rfl⟩

/-- In every run whose events meet the condition, replaying the log on a fake connection
with enough free space succeeds and rebuilds every database. -/
theorem fkBlog_replay_rebuilds {dbcnt : Nat} {clock clock' : Nat → Int} {junk junk' : Nat → UInt8}
    {blogOn : Bool} {events : List Event} {out : FkConnOut}
    (replayable : ∀ event ∈ events, event.Replayable)
    (reached : (fkSystemInit dbcnt true clock junk).run fkCmdEval maxWbuf events = some sys)
    (fits : RunFits fkCmdEval maxWbuf (fkSystemInit dbcnt true clock junk) events)
    (fake : out.type = .fake) (first : out.dbIdx = 0)
    (enough : sys.svr.blog.length * replyMax ≤ out.wbuf.fkBufFreeLen) :
    ∃ last, replay fkCmdEval ⟨fkSvrInit dbcnt blogOn clock' junk', out⟩ sys.svr.blog = some last ∧
      ∀ isexp idx, dbMap (last.svr.dict isexp idx) = dbMap (sys.svr.dict isexp idx) := by
  have start : LogKept fkCmdEval ⟨fkSvrInit dbcnt blogOn clock' junk', out⟩
      (fkSystemInit dbcnt true clock junk) :=
    logKept_init fake first
  have kept := run_logKept start replayable fits reached
  obtain ⟨last, ran, svrs, _⟩ := kept.replays enough
  refine ⟨last, ran, ?_⟩
  intro isexp idx
  cases isexp with
  | false => exact (svrs.dbs idx).same.symm
  | true =>
      change dbMap (last.svr.expdb idx) = dbMap (sys.svr.expdb idx)
      rw [svrs.left_exp, svrs.right_exp]

end Run

/-- A fake connection with space for four replies. -/
def roomyConn : FkConnOut := ⟨.fake, fkBufCreate (4 * replyMax) fkBufHighwat, 0⟩

/-- Two clients that work on the second database, one after the other. -/
def sharedRun : List Event :=
  [.connect 0, .connect 1, .command 0 [ascii "SELECT", ascii "1"],
    .command 0 [ascii "SET", ascii "k", ascii "v"],
    .command 1 [ascii "SELECT", ascii "1"],
    .command 1 [ascii "LPUSH", ascii "l", ascii "x", ascii "y"]]

/-- The second client writes to the first database after the first one selected another. -/
def crossedRun : List Event :=
  [.connect 0, .connect 1, .command 0 [ascii "SELECT", ascii "1"],
    .command 1 [ascii "SET", ascii "k", ascii "v"]]

/-- Short arguments and a name that can be replayed. -/
def Event.Short : Event → Bool
  | .command _ args => !args.isEmpty && args.length ≤ fkArgCntHighwat &&
      args.all (fun arg => arg.length ≤ fkArgHighwat) &&
      fkStr2upper (args.headD []) ∉ [ascii "EVAL", ascii "SETEX", ascii "ZADD"]
  | _ => true

theorem Event.replayable_of_short {event : Event} (short : event.Short = true) :
    event.Replayable := by
  cases event with
  | command client args =>
      simp only [Event.Short, Bool.and_eq_true, Bool.not_eq_true', decide_eq_true_eq,
        List.all_eq_true, List.mem_cons, List.not_mem_nil, or_false, not_or,
        List.isEmpty_eq_false_iff] at short
      obtain ⟨⟨⟨nonempty, count⟩, fits⟩, notEval, notSetex, notZadd⟩ := short
      exact ⟨⟨nonempty, count, fits, notEval⟩, notSetex, notZadd⟩
  | connect client => trivial
  | sent client count => trivial
  | close client => trivial

theorem fkBlog_replay_rebuilds_shared :
    ∃ sys last, (fkSystemInit 2 true (fun _ => 0) (fun _ => 0)).run (fun _ => Act.fault) 1024
      sharedRun = some sys ∧ replay (fun _ => Act.fault)
        ⟨fkSvrInit 2 false (fun _ => 0) (fun _ => 0), roomyConn⟩ sys.svr.blog = some last ∧
      ∀ isexp idx, dbMap (last.svr.dict isexp idx) = dbMap (sys.svr.dict isexp idx) := by
  have ran : ((fkSystemInit 2 true (fun _ => 0) (fun _ => 0)).run (fun _ => Act.fault) 1024
      sharedRun).map (fun sys => sys.svr.blog.length) = some 4 := by decide +kernel
  obtain ⟨sys, reached, length⟩ := Option.map_eq_some_iff.mp ran
  have short : ∀ event ∈ sharedRun, event.Short = true := by decide +kernel
  have fits : RunFits (fun _ => Act.fault) 1024 (fkSystemInit 2 true (fun _ => 0) (fun _ => 0))
      sharedRun := by
    decide +kernel
  obtain ⟨last, rebuilt⟩ :=
    @fkBlog_replay_rebuilds _ _ _ 2 _ (fun _ => 0) _ (fun _ => 0) false _ roomyConn
      (fun event member => Event.replayable_of_short (short event member)) reached fits rfl rfl
        (by rw [length]; decide)
  exact ⟨sys, last, reached, rebuilt⟩

/-- The crossed run ends with the key in the first database, its replay with the key in
the second one. -/
theorem fkBlog_replay_crosses :
    ∃ sys last, (fkSystemInit 2 true (fun _ => 0) (fun _ => 0)).run (fun _ => Act.fault) 1024
      crossedRun = some sys ∧ (∀ event ∈ crossedRun, event.Replayable) ∧
      sys.svr.blog.length * replyMax ≤ roomyConn.wbuf.fkBufFreeLen ∧
      replay (fun _ => Act.fault) ⟨fkSvrInit 2 false (fun _ => 0) (fun _ => 0), roomyConn⟩
        sys.svr.blog = some last ∧
      dbMap (last.svr.db 0) (ascii "k") ≠ dbMap (sys.svr.db 0) (ascii "k") := by
  have ran : ((fkSystemInit 2 true (fun _ => 0) (fun _ => 0)).run (fun _ => Act.fault) 1024
      crossedRun).map (fun sys => (sys.svr.blog, fkDictGet dbDictEop (sys.svr.db 0) (ascii "k"))) =
        some ([[ascii "SELECT", ascii "1"], [ascii "SET", ascii "k", ascii "v"]],
          some (.str (ascii "v"))) := by
    decide +kernel
  have again : (replay (fun _ => Act.fault) ⟨fkSvrInit 2 false (fun _ => 0) (fun _ => 0), roomyConn⟩
      [[ascii "SELECT", ascii "1"], [ascii "SET", ascii "k", ascii "v"]]).map
      (fun last => fkDictGet dbDictEop (last.svr.db 0) (ascii "k")) = some none := by decide +kernel
  have short : ∀ event ∈ crossedRun, event.Short = true := by decide +kernel
  obtain ⟨sys, reached, facts⟩ := Option.map_eq_some_iff.mp ran
  obtain ⟨last, replayed, missing⟩ := Option.map_eq_some_iff.mp again
  obtain ⟨log, held⟩ := Prod.mk.inj facts
  refine ⟨sys, last, reached, fun event member => Event.replayable_of_short (short event member),
    ?_, ?_, ?_⟩
  · rw [log]
    decide
  · rw [log]
    exact replayed
  · rw [dbMap, dbMap, missing, held]
    exact (Option.some_ne_none _).symm

end Freekick
