import Freekick.Blog.Append
import Freekick.Blog.Torn
import Freekick.Store.Replay
import Freekick.Store.WriteLog

/-!
# What the log of a dead server recovers

The server dies at any moment, and of its log any number of bytes is on the disk.  A new
server that loads the file then has the databases that the dead one had at some moment,
however its reads go and whatever stops its loader: a loaded command whose reply is
refused has been done in full or not at all.
-/

namespace Freekick

open Lib.Call

/-! ## The commands in a log -/

/-- A command as the server logs it. -/
structure LogEntry (args : List Bytes) : Prop where
  admissible : Admissible args
  notEval : fkStr2upper (args.headD []) ≠ ascii "EVAL"
  writes : (cmdOf args).isRead = false

theorem LogEntry.nonempty {args : List Bytes} (entry : LogEntry args) : args ≠ [] :=
  List.ne_nil_of_length_pos entry.admissible.pos

/-- At most one command more. -/
def Grows (before after : List (List Bytes)) : Prop :=
  after = before ∨ ∃ args, LogEntry args ∧ after = before ++ [args]

section Entries

variable {fkCmdEval : Handler} {svr : FkSvr} {out : FkConnOut} {pto : FkProto} {first : Bytes}
  {rest : List Bytes}

theorem logEntry_of_write (member : pto ∈ protos fkCmdEval) (writes : pto.type = .write)
    (few : (pto.name :: rest).length ≤ fkArgCntHighwat) (fits : ArgsFit (pto.name :: rest)) :
    LogEntry (pto.name :: rest) where
  admissible := ⟨Nat.succ_le_succ (Nat.zero_le _), few, fits⟩
  notEval := by
    rw [List.headD_cons, protos_upper fkCmdEval member]
    exact write_ne_eval member writes
  writes := by
    rw [cmdOf, List.headD_cons, protos_upper fkCmdEval member]
    exact read_isRead member writes

/-- What follows the handler adds the command of a write and nothing else. -/
theorem blogAppend_grows {work after : Work} (member : pto ∈ protos fkCmdEval)
    (notEval : pto.name ≠ ascii "EVAL") (few : (pto.name :: rest).length ≤ fkArgCntHighwat)
    (fits : ArgsFit (pto.name :: rest))
    (called : blogAppend pto (pto.name :: rest) work = .ok () after) :
    Grows work.svr.blog after.svr.blog := by
  rw [blogAppend_eq] at called
  cases called
  split
  · next logged =>
      refine .inr ⟨pto.name :: rest, logEntry_of_write member ?_ few fits, rfl⟩
      cases type : pto.type with
      | write => rfl
      | read => exact (logged.2.1 type).elim
      | script => exact (notEval (protos_script fkCmdEval member type)).elim
  · exact .inl (List.append_nil _)

theorem procArgs_grows (ok : SvrOk ArgName svr) (admitted : Admitted (first :: rest)) :
    (∀ after, procArgs fkCmdEval (first :: rest) ⟨svr, out⟩ = .ok () after →
      Grows svr.blog after.svr.blog) ∧ ∀ after, procArgs fkCmdEval (first :: rest) ⟨svr, out⟩ =
      .err after → Grows svr.blog after.svr.blog := by
  obtain ⟨_, few, fits, notEval⟩ := admitted
  have upperFits := fits.upper
  rcases procArgs_cases fkCmdEval first rest with ⟨text, len, rejects⟩ |
      ⟨pto, member, known, counted, runs⟩
  · rw [rejects]
    have kept := @addRsp_keeps (fun work => work.svr.blog = svr.blog) (fun _ _ same => same) text
      len ⟨svr, out⟩ rfl
    exact ⟨fun after called => .inl (kept.1 () after called),
      fun after called => .inl (kept.2 after called)⟩
  · rw [List.headD_cons, ← known] at notEval
    rw [← known] at upperFits
    rw [runs]
    have fixed := @handler_fixed fkCmdEval svr pto rest out ok member notEval upperFits
    constructor
    · intro after called
      obtain ⟨_, between, ran, appended⟩ := Act.bind_eq_ok called
      have blog : between.svr.blog = svr.blog := congrArg Fixed.blog (fixed.1 between ran)
      rw [← blog]
      exact blogAppend_grows member notEval few upperFits appended
    · intro after called
      rcases Act.bind_eq_err called with failed | ⟨_, between, ran, appended⟩
      · exact .inl (congrArg Fixed.blog (fixed.2 after failed))
      · cases appended

end Entries

/-! ## The moments of a run -/

section Moments

variable {fkCmdEval : Handler} {maxWbuf : Nat} {sys next : FkSystem} {events : List Event}

theorem FkSystem.step_grows {event : Event} (ok : SvrOk ArgName sys.svr) (admitted : event.Admitted)
    (stepped : sys.step fkCmdEval maxWbuf event = some next) :
    Grows sys.svr.blog next.svr.blog := by
  cases event with
  | connect client =>
      cases stepped
      exact .inl rfl
  | sent client count =>
      cases stepped
      exact .inl rfl
  | close client =>
      cases stepped
      exact .inl rfl
  | command client args =>
      obtain ⟨first, rest, rfl⟩ :=
        List.exists_cons_of_ne_nil (show args ≠ [] from Admitted.nonempty admitted)
      change sys.command fkCmdEval client (first :: rest) = some next at stepped
      unfold FkSystem.command at stepped
      split at stepped
      · cases stepped
        exact .inl rfl
      · next out connected =>
          obtain ⟨fine, failing⟩ := @procArgs_grows fkCmdEval sys.svr out first rest ok admitted
          rw [fkConnProcCmd_args] at stepped
          cases called : procArgs fkCmdEval (first :: rest) ⟨sys.svr, out⟩ with
          | ok value work =>
              rw [called] at stepped
              cases stepped
              exact fine work called
          | err work =>
              rw [called] at stepped
              cases stepped
              exact failing work called
          | fault =>
              rw [called] at stepped
              cases stepped

/-- The log only grows, and by commands that the server logs. -/
theorem FkSystem.run_grows (ok : SvrOk ArgName sys.svr)
    (admitted : ∀ event ∈ events, event.Admitted)
    (reached : sys.run fkCmdEval maxWbuf events = some next) :
    ∃ more, next.svr.blog = sys.svr.blog ++ more ∧ ∀ args ∈ more, LogEntry args := by
  induction events generalizing sys with
  | nil =>
      cases reached
      exact ⟨[], (List.append_nil _).symm, fun _ => (absurd · List.not_mem_nil)⟩
  | cons event rest ih =>
      obtain ⟨first, others⟩ := List.forall_mem_cons.mp admitted
      obtain ⟨middle, stepped, later⟩ := Option.bind_eq_some_iff.mp reached
      obtain ⟨more, blog, entries⟩ :=
        ih (FkSystem.step_ok first first.names ok stepped) others later
      rcases FkSystem.step_grows ok first stepped with same | ⟨args, entry, grown⟩
      · exact ⟨more, by rw [blog, same], entries⟩
      · refine ⟨args :: more, by rw [blog, grown, List.append_assoc, List.singleton_append], ?_⟩
        exact List.forall_mem_cons.mpr ⟨entry, entries⟩

/-- Every part of the final log was the log at some moment. -/
theorem FkSystem.run_moment {length : Nat} (ok : SvrOk ArgName sys.svr)
    (admitted : ∀ event ∈ events, event.Admitted)
    (reached : sys.run fkCmdEval maxWbuf events = some next) (least : sys.svr.blog.length ≤ length)
    (most : length ≤ next.svr.blog.length) :
    ∃ before later middle, events = before ++ later ∧
      sys.run fkCmdEval maxWbuf before = some middle ∧
      middle.run fkCmdEval maxWbuf later = some next ∧
        middle.svr.blog = next.svr.blog.take length := by
  induction events generalizing sys with
  | nil =>
      cases reached
      refine ⟨[], [], _, rfl, rfl, rfl, ?_⟩
      rw [Nat.le_antisymm most least, List.take_length]
  | cons event rest ih =>
      obtain ⟨first, others⟩ := List.forall_mem_cons.mp admitted
      obtain ⟨between, stepped, onward⟩ := Option.bind_eq_some_iff.mp reached
      by_cases now : length = sys.svr.blog.length
      · obtain ⟨more, blog, _⟩ := FkSystem.run_grows ok admitted reached
        refine ⟨[], event :: rest, sys, rfl, rfl, reached, ?_⟩
        rw [blog, now, List.take_left]
      · have slow : between.svr.blog.length ≤ length := by
          rcases FkSystem.step_grows ok first stepped with same | ⟨args, _, grown⟩
          · rw [same]
            exact least
          · rw [grown, List.length_append, List.length_singleton]
            omega
        obtain ⟨before, later, middle, rfl, ran, ends, held⟩ :=
          ih (FkSystem.step_ok first first.names ok stepped) others onward slow
        refine ⟨event :: before, later, middle, rfl, ?_, ends, held⟩
        rw [FkSystem.run, stepped]
        exact ran

theorem Event.Replayable.admitted {event : Event} (replayable : event.Replayable) :
    event.Admitted := by
  cases event with
  | command client args => exact replayable.toAdmitted
  | connect client => trivial
  | sent client count => trivial
  | close client => trivial

theorem RunFits.front {before later : List Event}
    (fits : RunFits fkCmdEval maxWbuf sys (before ++ later)) :
    RunFits fkCmdEval maxWbuf sys before := by
  induction before generalizing sys with
  | nil => trivial
  | cons event rest ih => exact ⟨fits.1, fun next stepped => ih (fits.2 next stepped)⟩

end Moments

/-! ## Two connections that run one command -/

/-- Two servers with the same keyspaces, each with a connection without a client; what the
connections have queued may differ. -/
structure Twins (left right : Work) : Prop where
  leftOk : SvrOk ArgName left.svr
  rightOk : SvrOk ArgName right.svr
  leftTimed : left.svr.Timed
  rightTimed : right.svr.Timed
  spaces : left.svr.spaces = right.svr.spaces
  frame : left.svr.frame = right.svr.frame
  readings : left.svr.readings = right.svr.readings
  fake : left.out.type = .fake
  same : right.out.type = left.out.type
  idx : left.out.dbIdx = right.out.dbIdx

/-- What comes of the left command when the right one succeeds: it succeeds as well, or it
gives up with all or with nothing done, or it crashes. -/
inductive TwinEnds (left last : Work) : Outcome Work Unit → Prop
  | ok {after : Work} (twins : Twins after last) : TwinEnds left last (.ok () after)
  | err {after : Work} (either : after.svr.spaces = left.svr.spaces ∨
    after.svr.spaces = last.svr.spaces) :
      TwinEnds left last (.err after)
  | fault : TwinEnds left last .fault

section Twins

variable {fkCmdEval : Handler} {left right last : Work} {args : List Bytes}

theorem Twins.answer (twins : Twins left right) (cmd : Cmd) :
    left.answer left.svr.spaces cmd = right.answer right.svr.spaces cmd := by
  have dbcnt : left.svr.dbcnt = right.svr.dbcnt := congrArg Prod.fst twins.frame
  have clock : left.svr.clock = right.svr.clock :=
    congrArg (fun parts => parts.2.2.2.2.1) twins.frame
  unfold Work.answer Work.clockOn
  rw [dbcnt, clock, twins.readings, twins.idx, twins.spaces]

/-- A connection without a client logs nothing. -/
theorem entries_fake (fake : left.out.type = .fake) : entries fkCmdEval left args = [] := by
  unfold entries
  split
  · rfl
  · refine if_neg fun logged => ?_
    rw [fake] at logged
    exact absurd logged.2.2.2 (by decide)

/-- A write whose reply is refused has been done in full or not at all. -/
theorem Cmd.cut_either {cmd : Cmd} (writes : cmd.isRead = false) :
    (∃ message, cmd.cut 0 = .refused message) ∨ cmd.cut 0 = cmd := by
  cases cmd with
  | pop => exact .inl ⟨_, rfl⟩
  | mget => cases writes
  | _ => exact .inr rfl

theorem Twins.follows (twins : Twins left right) (entry : LogEntry args)
    (called : procArgs fkCmdEval args right = .ok () last) :
    TwinEnds left last (procArgs fkCmdEval args left) := by
  have dbcnt : left.svr.dbcnt = right.svr.dbcnt := congrArg Prod.fst twins.frame
  have kept : Act.Keeps (fun work => SvrOk ArgName work.svr) (procArgs fkCmdEval args) := by
    obtain ⟨first, rest, rfl⟩ := List.exists_cons_of_ne_nil entry.nonempty
    exact procArgs_keeps entry.notEval entry.admissible.lens fun name member =>
      entry.admissible.lens name (List.mem_of_mem_tail (mem_of_mem_storedNames member))
  have lastOk := (kept right twins.rightOk).1 () last called
  have onRight := @procArgs_dispatched ArgName fkCmdEval right _ args entry.nonempty entry.notEval
    twins.rightOk twins.rightTimed.holds
  have onLeft := @procArgs_dispatched ArgName fkCmdEval left _ args entry.nonempty entry.notEval
    twins.leftOk twins.leftTimed.holds
  have leftKept := kept left twins.leftOk
  rw [called] at onRight
  generalize procArgs fkCmdEval args left = outcome at onLeft leftKept
  cases onRight with
  | @done answer wbuf after ran queued leaves =>
      rw [entries_fake (twins.same.trans twins.fake), Work.log_nil] at lastOk ⊢
      have lastSpaces : after.svr.spaces = _ := leaves.holds.spaces_eq
      rw [← dbcnt, ← twins.idx, ← twins.spaces] at lastSpaces
      have ranLeft := twins.answer (cmdOf args)
      rw [ran] at ranLeft
      cases onLeft with
      | crashed crashes => exact .fault
      | overflow again queuedLeft => exact .fault
      | @refused other part count leftWbuf leftAfter again queuedLeft cut leavesLeft =>
          rw [(Cmd.cut_of_write entry.writes count).1] at cut leavesLeft
          refine .err ?_
          change leftAfter.svr.spaces = _ ∨ leftAfter.svr.spaces = after.svr.spaces
          rcases Cmd.cut_either entry.writes with ⟨message, undone⟩ | whole
          · refine .inl ?_
            rw [undone] at cut leavesLeft
            cases cut
            exact leavesLeft.holds.spaces_eq.trans (Function.update_eq_self _ _)
          · refine .inr ?_
            rw [whole] at cut leavesLeft
            cases cut.symm.trans ranLeft
            exact leavesLeft.holds.spaces_eq.trans lastSpaces.symm
      | @done other leftWbuf leftAfter again queuedLeft leavesLeft =>
          cases again.symm.trans ranLeft
          rw [entries_fake twins.fake, Work.log_nil] at leftKept ⊢
          refine .ok ⟨leftKept.1 () _ rfl, lastOk, leavesLeft.holds.timed, leaves.holds.timed, ?_,
            ?_, ?_, ?_, ?_, ?_⟩
          · exact leavesLeft.holds.spaces_eq.trans lastSpaces.symm
          · exact leavesLeft.frame.trans (twins.frame.trans leaves.frame.symm)
          · exact leavesLeft.readings.trans
              ((congrArg (· + _) twins.readings).trans leaves.readings.symm)
          · exact leavesLeft.type.trans twins.fake
          · exact leaves.type.trans (twins.same.trans leavesLeft.type.symm)
          · rw [show (leftAfter.withWbuf leftWbuf).out.dbIdx = _ from leavesLeft.idx,
              show (after.withWbuf wbuf).out.dbIdx = _ from leaves.idx, dbcnt, twins.idx]

/-- The commands that a replay runs, on a connection whose replies may be refused. -/
theorem Twins.replays {commands : List (List Bytes)} (twins : Twins left right)
    (logged : ∀ args ∈ commands, LogEntry args)
    (ran : replay fkCmdEval right commands = some last) :
    ∃ count ≤ commands.length, ∃ middle, replay fkCmdEval right (commands.take count) =
      some middle ∧ (execAll (fkConnProcCmd fkCmdEval) left commands).1.svr.spaces =
      middle.svr.spaces ∧ ((execAll (fkConnProcCmd fkCmdEval) left commands).2.2 = .waits →
        count = commands.length) := by
  induction commands generalizing left right with
  | nil => exact ⟨0, Nat.le_refl _, right, rfl, twins.spaces, fun _ => rfl⟩
  | cons args rest ih =>
      obtain ⟨entry, others⟩ := List.forall_mem_cons.mp logged
      rw [replay, fkConnProcCmd_args] at ran
      cases called : procArgs fkCmdEval args right with
      | err next =>
          rw [called] at ran
          cases ran
      | fault =>
          rw [called] at ran
          cases ran
      | ok value next =>
          rw [called] at ran
          have follows := twins.follows entry called
          have one : replay fkCmdEval right [args] = some next := replay_one fkCmdEval called
          rw [execAll, fkConnProcCmd_args]
          generalize procArgs fkCmdEval args left = outcome at follows
          cases follows with
          | ok twins =>
              obtain ⟨count, most, middle, reached, spaces, ends⟩ := ih twins others ran
              refine ⟨count + 1, Nat.succ_le_succ most, middle, ?_, spaces,
                fun waits => congrArg (· + 1) (ends waits)⟩
              rw [List.take_succ_cons, replay, fkConnProcCmd_args, called]
              exact reached
          | err either =>
              rcases either with undone | whole
              · exact ⟨0, Nat.zero_le _, right, rfl, undone.trans twins.spaces, fun waits => by
                  cases waits⟩
              · exact ⟨1, Nat.succ_le_succ (Nat.zero_le _), next, one, whole, fun waits => by
                  cases waits⟩
          | fault => exact ⟨0, Nat.zero_le _, right, rfl, twins.spaces, fun waits => by cases waits⟩

/-- A new server with two connections. -/
theorem twins_init (dbcnt : Nat) (blogOn : Bool) (clock : Nat → Int) (junk : Nat → UInt8)
    {first second : FkConnOut} (fake : first.type = .fake) (same : second.type = first.type)
    (idx : first.dbIdx = second.dbIdx) :
    Twins ⟨fkSvrInit dbcnt blogOn clock junk, first⟩
      ⟨fkSvrInit dbcnt blogOn clock junk, second⟩ where
  leftOk := fkSystemInit_ok dbcnt blogOn clock junk
  rightOk := fkSystemInit_ok dbcnt blogOn clock junk
  leftTimed := fkSvrInit_timed dbcnt blogOn clock junk
  rightTimed := fkSvrInit_timed dbcnt blogOn clock junk
  spaces := rfl
  frame := rfl
  readings := rfl
  fake := fake
  same := same
  idx := idx

theorem replay_front {work : Work} {first second : List (List Bytes)}
    (ran : replay fkCmdEval work (first ++ second) = some last) :
    ∃ middle, replay fkCmdEval work first = some middle := by
  induction first generalizing work with
  | nil => exact ⟨work, rfl⟩
  | cons args rest ih =>
      rw [List.cons_append, replay] at ran
      rw [replay]
      split at ran
      · exact ih ran
      · cases ran

theorem SvrMatch.spaces {svr other : FkSvr} (svrs : SvrMatch svr other) :
    svr.spaces = other.spaces := by
  funext idx
  unfold FkSvr.spaces
  rw [(svrs.dbs idx).same, svrs.left_exp, svrs.right_exp]

end Twins

/-! ## Any part of the log -/

section Recover

variable {fkCmdEval : Handler} {maxWbuf dbcnt : Nat} {clock : Nat → Int} {junk : Nat → UInt8}
  {events : List Event} {sys : FkSystem}

/-- The file holds what the parser reads as the logged commands. -/
theorem blogFile_eq {beyond : Nat → UInt8} {log : List (List Bytes)}
    (admissible : ∀ args ∈ log, Admissible args)
    (written : ∀ args ∈ log, ∀ arg ∈ args, FitsBlog arg) :
    (log.map (fkBlogAppend beyond)).flatten = (log.map enc).flatten := by
  refine congrArg List.flatten (List.map_congr_left fun args member => ?_)
  exact (fkBlogAppend_eq_enc_iff beyond (admissible args member)).mpr (written args member)

theorem fkBlogLoad_recovers {maxWbuf' : Nat} {blogOn : Bool} {clock' : Nat → Int}
    {junk' beyond : Nat → UInt8} (replayable : ∀ event ∈ events, event.Replayable)
    (reached : (fkSystemInit dbcnt true clock junk).run fkCmdEval maxWbuf events = some sys)
    (fits : RunFits fkCmdEval maxWbuf (fkSystemInit dbcnt true clock junk) events)
    (written : ∀ args ∈ sys.svr.blog, args.length ≤ fkVtrInitLen ∧ ∀ arg ∈ args, FitsBlog arg)
    (count : Nat) (reads : List Nat) :
    let file := (sys.svr.blogFile beyond).take count
    let conn := fkConnCreate .fake maxWbuf'
    let result := fkBlogLoad (fkConnProcCmd fkCmdEval) reads conn.toFkConnIn
      ⟨fkSvrInit dbcnt blogOn clock' junk', conn.toFkConnOut⟩ file
    ∃ before later middle, events = before ++ later ∧
      (fkSystemInit dbcnt true clock junk).run fkCmdEval maxWbuf before = some middle ∧
      middle.run fkCmdEval maxWbuf later = some sys ∧ result.state.svr.spaces = middle.svr.spaces ∧
      (reads = [] → result.ending = .waits → middle.svr.blog = wholeIn count sys.svr.blog) := by
  intro file conn result
  have ok := @fkSystemInit_ok ArgName dbcnt true clock junk
  have admitted : ∀ event ∈ events, event.Admitted :=
    fun event member => (replayable event member).admitted
  obtain ⟨log, blog, entries⟩ := FkSystem.run_grows ok admitted reached
  rw [show (fkSystemInit dbcnt true clock junk).svr.blog = [] from rfl, List.nil_append] at blog
  rw [← blog] at entries
  -- what the loader runs
  obtain ⟨handed, front, stands, ends⟩ := @fkBlogLoad_ran _ (fkConnProcCmd fkCmdEval)
    ⟨fkSvrInit dbcnt blogOn clock' junk', conn.toFkConnOut⟩ maxWbuf' reads sys.svr.blog
    (fun args member => (entries args member).admissible)
      (fun args member => (written args member).1) count
  rw [← @blogFile_eq beyond _ (fun args member => (entries args member).admissible)
    (fun args member => (written args member).2)] at stands ends
  change result.state = _ at stands
  change result.ending = _ → _ at ends
  obtain ⟨rest, split⟩ := front.trans (wholeIn_front count sys.svr.blog)
  -- the same commands on a connection with space for all replies
  obtain ⟨roomy, fake, first, room⟩ : ∃ out : FkConnOut, out.type = .fake ∧ out.dbIdx = 0 ∧
      out.wbuf.fkBufFreeLen = sys.svr.blog.length * replyMax :=
    ⟨⟨.fake, fkBufCreate (sys.svr.blog.length * replyMax) fkBufHighwat, 0⟩, rfl, rfl, rfl⟩
  have start : LogKept fkCmdEval ⟨fkSvrInit dbcnt blogOn clock' junk', roomy⟩
      (fkSystemInit dbcnt true clock junk) :=
    logKept_init fake first
  obtain ⟨last, replayed⟩ :=
    (run_logKept start replayable fits reached).replays (Nat.le_of_eq room.symm)
  have ran := replayed.ran
  rw [← split] at ran
  obtain ⟨final, ranHanded⟩ := replay_front ran
  obtain ⟨number, most, middle, ranMiddle, spaces, complete⟩ :=
    Twins.replays (@twins_init dbcnt blogOn clock' junk' conn.toFkConnOut roomy rfl fake first.symm)
      (fun args member => entries args (split ▸ List.mem_append_left _ member)) ranHanded
  have inside : number ≤ sys.svr.blog.length := by
    rw [← split, List.length_append]
    omega
  have same : handed.take number = sys.svr.blog.take number := by
    rw [← split, List.take_append_of_le_length most]
  -- the moment when the log had these commands
  obtain ⟨before, later, moment, rfl, toMoment, onward, held⟩ :=
    FkSystem.run_moment ok admitted reached (Nat.zero_le _) inside
  have kept := run_logKept start
    (fun event member => replayable event (List.mem_append_left _ member)) fits.front toMoment
  have shorter : moment.svr.blog.length ≤ sys.svr.blog.length := by
    rw [held]
    exact List.length_take_le' _ _
  obtain ⟨again, known⟩ := kept.replays
    (Nat.le_trans (Nat.mul_le_mul_right _ shorter) (Nat.le_of_eq room.symm))
  have ranAgain := known.ran
  rw [held, ← same, ranMiddle] at ranAgain
  cases ranAgain
  refine ⟨before, later, moment, rfl, toMoment, onward, ?_, fun full waits => ?_⟩
  · rw [stands]
    exact spaces.trans known.svrs.spaces.symm
  · obtain ⟨all, whole⟩ := ends waits
    rw [held, ← same, complete all, List.take_length, whole full]

end Recover

/-- The log of two clients, cut inside the last of its four commands. -/
theorem fkBlogLoad_recovers_cut :
    ∃ sys, (fkSystemInit 2 true (fun _ => 0) (fun _ => 0)).run (fun _ => Act.fault) 1024
      sharedRun = some sys ∧ let conn := fkConnCreate .fake 1024
      let result := fkBlogLoad (fkConnProcCmd fun _ => Act.fault) [] conn.toFkConnIn
        ⟨fkSvrInit 2 false (fun _ => 0) (fun _ => 0), conn.toFkConnOut⟩
        ((sys.svr.blogFile fun _ => 0).take 100)
      result.handed.length = 3 ∧ ∃ before later middle, sharedRun = before ++ later ∧
        (fkSystemInit 2 true (fun _ => 0) (fun _ => 0)).run (fun _ => Act.fault) 1024 before =
          some middle ∧
        middle.run (fun _ => Act.fault) 1024 later = some sys ∧
          result.state.svr.spaces = middle.svr.spaces ∧
        (([] : List Nat) = [] → result.ending = .waits →
          middle.svr.blog = wholeIn 100 sys.svr.blog) := by
  have ran : ((fkSystemInit 2 true (fun _ => 0) (fun _ => 0)).run (fun _ => Act.fault) 1024
      sharedRun).map (fun sys => sys.svr.blog) = some
        [[ascii "SELECT", ascii "1"], [ascii "SET", ascii "k", ascii "v"],
          [ascii "SELECT", ascii "1"], [ascii "LPUSH", ascii "l", ascii "x", ascii "y"]] :=
          by decide +kernel
  obtain ⟨sys, reached, log⟩ := Option.map_eq_some_iff.mp ran
  have short : ∀ event ∈ sharedRun, event.Short = true := by decide +kernel
  have fits : RunFits (fun _ => Act.fault) 1024 (fkSystemInit 2 true (fun _ => 0) (fun _ => 0))
      sharedRun := by
    decide +kernel
  have written : ∀ args ∈ sys.svr.blog, args.length ≤ fkVtrInitLen ∧
      ∀ arg ∈ args, FitsBlog arg := by
    unfold FitsBlog
    rw [log]
    decide +kernel
  refine ⟨sys, reached, ?_, ?_⟩
  · unfold FkSvr.blogFile
    rw [log]
    decide +kernel
  · exact fkBlogLoad_recovers (fun event member => Event.replayable_of_short (short event member))
      reached fits written 100 []

end Freekick
