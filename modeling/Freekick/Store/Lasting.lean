import Freekick.Lib.Steps
import Freekick.Store.OneKey
import Freekick.Store.Sweep

/-!
# Values without a time limit

The server in time: clients send commands, and between them the sweep runs.  A value
that `SET`, `MSET` or `SETNX` wrote to a key without a deadline stays there until
another command writes the key or empties it.
-/

namespace Freekick

open Lib.Call Lib.Steps

/-! ## The server with its sweep -/

/-- An event of a client, or a sweep that ends. -/
inductive Moment where
  | serve (event : Event)
  | sweep (rand : Nat → Nat) (fuel : Nat)

def Moment.Admitted : Moment → Prop
  | .serve event => event.Admitted
  | .sweep _ _ => True

/-- `none` is a crash, or a sweep that takes longer. -/
def FkSystem.moment (fkCmdEval : Handler) (maxWbuf : Nat) (sys : FkSystem) :
    Moment → Option FkSystem
  | .serve event => sys.step fkCmdEval maxWbuf event
  | .sweep rand fuel =>
      (fkSvrClearTimeoutKeys rand fuel sys.svr).map fun final => { sys with svr := final.svr }

/-! ## What is known about a key -/

namespace Cmd

/-- The value that a `SET`, an `MSET` or a successful `SETNX` gives to the key. -/
def writes (space : Keyspace) (key : Bytes) : Cmd → Option Bytes
  | .set other value => if other = key then some value else none
  | .mset pairs => written pairs key
  | .setnx other value => if other = key ∧ (space.values key).isNone then some value else none
  | _ => none

/-- Another command that writes the key or takes it away. -/
def Forgets (space : Keyspace) (key : Bytes) : Cmd → Prop
  | .setex other _ _ => other = key
  | .del keys => key ∈ keys
  | .flushdb => True
  | .flushall => True
  | .hset other _ _ => other = key ∧ (space.values key).bind Value.bytes? = none
  | .push _ other _ => other = key ∧ (space.values key).bind Value.bytes? = none
  | .pop _ other => other = key ∧ (space.values key).bind Value.bytes? = none
  | _ => False

instance (space : Keyspace) (key : Bytes) (cmd : Cmd) : Decidable (cmd.Forgets space key) := by
  cases cmd <;> unfold Forgets <;> infer_instance

/-- What the key was last set to, when nothing else came after it. -/
def expects (space : Keyspace) (key : Bytes) (expected : Option Bytes) (cmd : Cmd) : Option Bytes :=
  (cmd.writes space key).or (if cmd.Forgets space key then none else expected)

end Cmd

/-- What a key of a database was last set to. -/
def lastSet (idx : Nat) (key : Bytes) (expected : Option Bytes) (sys : FkSystem) :
    Moment → Option Bytes
  | .serve (.command client args) =>
      match sys.conns client with
      | none => expected
      | some out =>
          if out.dbIdx = idx then (cmdOf args).expects (sys.svr.spaces idx) key expected
          else if cmdOf args = .flushall then none
          else expected
  | _ => expected

/-- A command that sets the key finds no deadline for it. -/
def Fresh (idx : Nat) (key : Bytes) (sys : FkSystem) : Moment → Prop
  | .serve (.command client args) => ∀ out, sys.conns client = some out → out.dbIdx = idx →
      ((cmdOf args).writes (sys.svr.spaces idx) key).isSome →
        (sys.svr.spaces idx).deadlines key = none
  | _ => True

/-- A string without a deadline. -/
structure Keyspace.Lasting (space : Keyspace) (key value : Bytes) : Prop where
  held : space.values key = some (.str value)
  untimed : space.deadlines key = none

namespace Keyspace.Lasting

variable {space : Keyspace} {clock : Nat → Int} {key value : Bytes}

theorem look (lasting : space.Lasting key value) (other : Bytes) :
    (space.look clock other).left.Lasting key value := by
  unfold Keyspace.look
  cases limit : space.deadlines other with
  | none => exact lasting
  | some deadline =>
      dsimp only
      split
      · have apart : key ≠ other := by
          rintro rfl
          rw [lasting.untimed] at limit
          cases limit
        exact ⟨(Function.update_of_ne apart ..).trans lasting.held,
          (Function.update_of_ne apart ..).trans lasting.untimed⟩
      · exact lasting

theorem lookAll (lasting : space.Lasting key value) (keys : List Bytes) :
    (space.lookAll clock keys).left.Lasting key value := by
  induction keys generalizing clock space with
  | nil => exact lasting
  | cons other rest ih => exact ih (lasting.look other)

/-- A write to another key. -/
theorem put (lasting : space.Lasting key value) {other : Bytes} (apart : key ≠ other)
    (item : Value) :
    (space.put other item).Lasting key value :=
  ⟨(Function.update_of_ne apart ..).trans lasting.held, lasting.untimed⟩

theorem write (lasting : space.Lasting key value) {other : Bytes} (apart : key ≠ other)
    (item : Option Value) :
    (space.write other item).Lasting key value := by
  cases item with
  | none => exact lasting
  | some item => exact lasting.put apart item

end Keyspace.Lasting

/-! ## What a command does to it -/

namespace Cmd

variable {dbcnt count : Nat} {clock : Nat → Int} {space : Keyspace} {key value : Bytes} {cmd : Cmd}
  {answer : Answer}

/-- A command that sets the key. -/
theorem run_writes (untimed : space.deadlines key = none)
    (ran : cmd.run dbcnt clock space = some answer)
    (written : cmd.writes space key = some value) : answer.space.Lasting key value := by
  cases cmd with
  | set other text =>
      cases ran
      rw [writes] at written
      split at written
      · next same =>
          cases written
          subst same
          exact ⟨Function.update_self .., untimed⟩
      · cases written
  | setnx other text =>
      rw [writes] at written
      split at written
      · next both =>
          cases written
          obtain ⟨same, absent⟩ := both
          subst same
          rw [run, if_neg (by rw [Option.isNone_iff_eq_none.mp absent]; decide)] at ran
          cases ran
          exact ⟨Function.update_self .., untimed⟩
      · cases written
  | mset pairs =>
      cases ran
      change Freekick.written pairs key = some value at written
      refine ⟨?_, ?_⟩
      · rw [Keyspace.putAll_values, written]
        rfl
      · rw [Keyspace.putAll_deadlines]
        exact untimed
  | _ => cases written

/-- A command that neither sets the key nor forgets about it. -/
theorem run_lasting (lasting : space.Lasting key value)
    (ran : cmd.run dbcnt clock space = some answer)
    (unwritten : cmd.writes space key = none) (unforgotten : ¬ cmd.Forgets space key) :
    answer.space.Lasting key value := by
  cases own : cmd.ownKey with
  | some other =>
      obtain ⟨act, acts⟩ := exists_acts own
      rw [acts.run] at ran
      cases ran
      by_cases same : key = other
      · -- The key holds a string, which no such command writes over.
        rw [← same, lasting.held, acts.spares]
        exact lasting
      · exact lasting.write same _
  | none =>
      cases cmd with
      | set other text =>
          cases ran
          rw [writes] at unwritten
          split at unwritten
          · cases unwritten
          · next apart => exact lasting.put (Ne.symm apart) _
      | setex other exp text =>
          cases ran
          have apart : key ≠ other := Ne.symm unforgotten
          have put := lasting.put apart (.str text)
          exact ⟨put.held, (Function.update_of_ne apart ..).trans put.untimed⟩
      | mset pairs =>
          cases ran
          change Freekick.written pairs key = none at unwritten
          refine ⟨?_, ?_⟩
          · rw [Keyspace.putAll_values, unwritten]
            exact lasting.held
          · rw [Keyspace.putAll_deadlines]
            exact lasting.untimed
      | mget keys =>
          cases ran
          exact lasting.lookAll keys
      | get other =>
          cases ran
          exact lasting.look other
      | del keys =>
          cases ran
          exact ⟨(if_neg unforgotten).trans lasting.held, lasting.untimed⟩
      | flushdb | flushall => exact absurd trivial unforgotten
      | save | select | refused =>
          cases ran
          exact lasting
      | zadd other arity =>
          rw [run] at ran
          split at ran <;> cases ran
          exact lasting
      | setnx | existing | hset | hget | push | pop | llen => cases own

/-- The commands as a whole: what the key was last set to stays there. -/
theorem run_expects {expected : Option Bytes}
    (lasting : ∀ value, expected = some value → space.Lasting key value)
    (fresh : (cmd.writes space key).isSome → space.deadlines key = none)
    (ran : cmd.run dbcnt clock space = some answer)
    (expects : cmd.expects space key expected = some value) : answer.space.Lasting key value := by
  unfold Cmd.expects at expects
  cases written : cmd.writes space key with
  | some text =>
      rw [written] at expects fresh
      cases expects
      exact run_writes (fresh rfl) ran written
  | none =>
      rw [written, Option.none_or] at expects
      split at expects
      · cases expects
      · next unforgotten => exact run_lasting (lasting value expects) ran written unforgotten

/-- A command that is cut short does less. -/
theorem cut_expects {expected : Option Bytes}
    (expects : cmd.expects space key expected = some value) :
    (cmd.cut count).expects space key expected = some value := by
  cases cmd with
  | pop pos other =>
      change (none : Option Bytes).or _ = _ at expects
      rw [Option.none_or] at expects
      split at expects
      · cases expects
      · exact expects
  | _ => exact expects

theorem cut_ne_flushall (kept : cmd ≠ .flushall) : cmd.cut count ≠ .flushall := by
  cases cmd <;> first | exact kept | exact nofun

theorem cut_writes : (cmd.cut count).writes space key = cmd.writes space key := by
  cases cmd <;> rfl

end Cmd

/-! ## Moments -/

section Moment

variable {fkCmdEval : Handler} {maxWbuf idx : Nat} {sys next : FkSystem} {key : Bytes}
  {expected : Option Bytes}

/-- The key of the database is what it was last set to, without a deadline. -/
def FkSvr.Keeps (svr : FkSvr) (idx : Nat) (key : Bytes) (expected : Option Bytes) : Prop :=
  ∀ value, expected = some value → (svr.spaces idx).Lasting key value

theorem Commanded.keeps {client : Nat} {args : List Bytes}
    (commanded : Commanded fkCmdEval sys client args next)
    (inside : idx < sys.svr.dbcnt) (keeps : sys.svr.Keeps idx key expected)
    (fresh : Fresh idx key sys (.serve (.command client args))) :
    next.svr.Keeps idx key (lastSet idx key expected sys (.serve (.command client args))) := by
  intro value expects
  rw [lastSet] at expects
  -- What a command leaves, whether it was cut short or not.
  have step : ∀ {out : FkConnOut} {cmd : Cmd} {answer : Answer} {after : Work},
      (out.dbIdx = idx → cmd.expects (sys.svr.spaces idx) key expected = some value ∧
        ((cmd.writes (sys.svr.spaces idx) key).isSome →
          (sys.svr.spaces idx).deadlines key = none)) →
      (out.dbIdx ≠ idx → cmd ≠ .flushall ∧ expected = some value) →
      Work.answer ⟨sys.svr, out⟩ sys.svr.spaces cmd = some answer →
      Leaves ⟨sys.svr, out⟩ sys.svr.spaces cmd answer after →
        (after.svr.spaces idx).Lasting key value := by
    intro out cmd answer after here there ran leaves
    rw [leaves.holds.spaces_eq]
    change (cmd.after sys.svr.dbcnt out.dbIdx sys.svr.spaces answer.space idx).Lasting key value
    by_cases own : out.dbIdx = idx
    · subst own
      rw [Cmd.after_own inside ran]
      exact Cmd.run_expects keeps (here rfl).2 ran (here rfl).1
    · rw [Cmd.after_other inside own, if_neg (there own).1]
      exact keeps value (there own).2
  cases commanded with
  | absent gone =>
      rw [gone] at expects
      exact keeps value expects
  | @refused out answer part count wbuf after connected ran queued cut leaves =>
      rw [connected] at expects
      dsimp only at expects
      refine step (fun own => ?_) (fun other => ?_) cut leaves
      · rw [if_pos own] at expects
        rw [Cmd.cut_writes]
        exact ⟨Cmd.cut_expects expects, fresh out connected own⟩
      · rw [if_neg other] at expects
        split at expects
        · cases expects
        · next kept => exact ⟨Cmd.cut_ne_flushall kept, expects⟩
  | @done out answer wbuf after connected ran queued leaves =>
      rw [connected] at expects
      dsimp only at expects
      change (after.svr.spaces idx).Lasting key value
      refine step (fun own => ?_) (fun other => ?_) ran leaves
      · rw [if_pos own] at expects
        exact ⟨expects, fresh out connected own⟩
      · rw [if_neg other] at expects
        split at expects
        · cases expects
        · next kept => exact ⟨kept, expects⟩

/-- What holds of the server between two moments. -/
structure FkSystem.Lasts (idx : Nat) (key : Bytes) (noted : FkSystem × Option Bytes) : Prop where
  sound : noted.1.Sound
  inside : idx < noted.1.svr.dbcnt
  keeps : noted.1.svr.Keeps idx key noted.2

/-- Every moment leaves the databases and the selections as they should be. -/
theorem FkSystem.moment_sound {moment : Moment} (positive : 0 < sys.svr.dbcnt)
    (admitted : moment.Admitted) (sound : sys.Sound)
    (stepped : sys.moment fkCmdEval maxWbuf moment = some next) :
    next.Sound ∧ next.svr.dbcnt = sys.svr.dbcnt := by
  cases moment with
  | serve event => exact FkSystem.step_sound positive admitted sound stepped
  | sweep rand fuel =>
      obtain ⟨final, called, rfl⟩ := Option.map_eq_some_iff.mp stepped
      have kept := @sweepLoop_keeps ArgName rand 0 fuel ⟨sys.svr, 0, []⟩ final sound.ok
        sound.timed called
      have dbcnt : final.svr.dbcnt = sys.svr.dbcnt := congrArg (fun parts => parts.1) kept.frame
      refine ⟨⟨kept.ok, kept.timed, fun client out connected => ?_⟩, dbcnt⟩
      exact Nat.lt_of_lt_of_eq (sound.idx client out connected) dbcnt.symm

theorem FkSystem.moment_lasts {moment : Moment} (admitted : moment.Admitted)
    (lasts : FkSystem.Lasts idx key (sys, expected))
    (fresh : Fresh idx key sys moment) (stepped : sys.moment fkCmdEval maxWbuf moment = some next) :
    FkSystem.Lasts idx key (next, lastSet idx key expected sys moment) := by
  obtain ⟨sound, dbcnt⟩ := FkSystem.moment_sound (Nat.zero_lt_of_lt lasts.inside) admitted
    lasts.sound stepped
  refine ⟨sound, Nat.lt_of_lt_of_eq lasts.inside dbcnt.symm, ?_⟩
  cases moment with
  | serve event =>
      cases event with
      | command client args =>
          exact (FkSystem.command_commanded admitted lasts.sound.ok lasts.sound.timed stepped).keeps
            lasts.inside lasts.keeps fresh
      | connect client =>
          cases stepped
          exact lasts.keeps
      | sent client count =>
          cases stepped
          exact lasts.keeps
      | close client =>
          cases stepped
          exact lasts.keeps
  | sweep rand fuel =>
      obtain ⟨final, called, rfl⟩ := Option.map_eq_some_iff.mp stepped
      have kept := @sweepLoop_keeps ArgName rand 0 fuel ⟨sys.svr, 0, []⟩ final lasts.sound.ok
        lasts.sound.timed called
      intro value expects
      have lasting := lasts.keeps value expects
      rcases kept.expires idx key with ⟨values, deadlines⟩ | ⟨⟨deadline, _, held, _⟩, _⟩
      · exact ⟨values.trans lasting.held, deadlines.trans lasting.untimed⟩
      · rw [lasting.untimed] at held
        cases held

/-- `GET` finds a value that lasts, and nothing removes it. -/
theorem FkSystem.Lasts.get {value : Bytes} (lasts : FkSystem.Lasts idx key (sys, some value))
    {out : FkConnOut} (own : out.dbIdx = idx) {name : Bytes}
    (named : fkStr2upper name = ascii "GET") :
    RepliesWith (procArgs fkCmdEval [name, key] ⟨sys.svr, out⟩) ⟨sys.svr, out⟩ (.bulk value) := by
  subst own
  have lasting := lasts.keeps value rfl
  have dispatched := @procArgs_dispatched ArgName fkCmdEval ⟨sys.svr, out⟩ sys.svr.spaces
    [name, key] (List.cons_ne_nil _ _) (by rw [List.headD_cons, named]; decide) lasts.sound.ok
      lasts.sound.timed.holds
  have ran : Work.answer ⟨sys.svr, out⟩ sys.svr.spaces (cmdOf [name, key]) =
      some ⟨.bulk value, sys.svr.spaces out.dbIdx, 0⟩ := by
    rw [cmdOf_get named, Work.answer, Cmd.run, Keyspace.look, lasting.untimed]
    dsimp only
    rw [lasting.held]
    rfl
  exact dispatched.repliesWith ran

theorem FkSystem.Lasts.alive {value : Bytes} (lasts : FkSystem.Lasts idx key (sys, some value))
    {out : FkConnOut} (own : out.dbIdx = idx) :
    fkHandleExpiredKey key ⟨sys.svr, out⟩ = .ok false ⟨sys.svr, out⟩ := by
  subst own
  refine fkHandleExpiredKey_untimed ?_
  rw [lasts.sound.timed.holds.deadlines, (lasts.keeps value rfl).untimed]
  rfl

end Moment

/-! ## Whole runs -/

theorem fkSystem_moments_sound {fkCmdEval : Handler} {maxWbuf dbcnt : Nat} {blogOn : Bool}
    {clock : Nat → Int} {junk : Nat → UInt8} {moments : List Moment} {sys : FkSystem}
    (positive : 0 < dbcnt) (admitted : ∀ moment ∈ moments, moment.Admitted)
    (reached : run (FkSystem.moment fkCmdEval maxWbuf) (fkSystemInit dbcnt blogOn clock junk)
      moments = some sys) :
    sys.Sound ∧ 0 < sys.svr.dbcnt := by
  refine @run_invariant _ _ _ _ _ _ (fun sys : FkSystem => sys.Sound ∧ 0 < sys.svr.dbcnt) _
    (fun sys moment next known good stepped => ?_) ⟨fkSystemInit_sound dbcnt blogOn clock junk,
      positive⟩ admitted reached
  obtain ⟨sound, same⟩ := FkSystem.moment_sound known.2 good known.1 stepped
  exact ⟨sound, Nat.lt_of_lt_of_eq known.2 same.symm⟩

section Runs

variable (fkCmdEval : Handler) (maxWbuf idx : Nat) (key : Bytes)

/-- The moments of a server with what the key was last set to. -/
def noted : FkSystem × Option Bytes → Moment → Option (FkSystem × Option Bytes) :=
  noting (FkSystem.moment fkCmdEval maxWbuf) (lastSet idx key)

/-- A value that was written to keys without a deadline is found until the key is written
again, deleted or emptied. -/
theorem fkSystem_lasting {dbcnt : Nat} {blogOn : Bool} {clock : Nat → Int} {junk : Nat → UInt8}
    {moments : List Moment} {sys : FkSystem} {value : Bytes} (inside : idx < dbcnt)
    (admitted : ∀ moment ∈ moments, moment.Admitted)
    (fresh : Throughout (noted fkCmdEval maxWbuf idx key) (fun noted => Fresh idx key noted.1)
      (fkSystemInit dbcnt blogOn clock junk, none) moments)
    (reached : run (noted fkCmdEval maxWbuf idx key)
      (fkSystemInit dbcnt blogOn clock junk, none) moments = some (sys, some value)) :
    (∀ out name, out.dbIdx = idx → fkStr2upper name = ascii "GET" →
      RepliesWith (procArgs fkCmdEval [name, key] ⟨sys.svr, out⟩) ⟨sys.svr, out⟩ (.bulk value)) ∧
      ∀ out, out.dbIdx = idx → fkHandleExpiredKey key ⟨sys.svr, out⟩ = .ok false
        ⟨sys.svr, out⟩ := by
  have start : FkSystem.Lasts idx key (fkSystemInit dbcnt blogOn clock junk, none) :=
    ⟨fkSystemInit_sound dbcnt blogOn clock junk, inside, nofun⟩
  have last : FkSystem.Lasts idx key (sys, some value) := by
    refine run_keeps (fun pair moment next lasts good here stepped => ?_) start admitted
      fresh reached
    obtain ⟨after, moved, rfl⟩ := Option.map_eq_some_iff.mp stepped
    exact FkSystem.moment_lasts good lasts here moved
  exact ⟨fun out name own named => last.get own named, fun out own => last.alive own⟩

end Runs

instance (idx : Nat) (key : Bytes) (sys : FkSystem) (moment : Moment) :
    Decidable (Fresh idx key sys moment) :=
  match moment with
  | .serve (.command client args) =>
      inferInstanceAs (Decidable (∀ out ∈ sys.conns client, out.dbIdx = idx →
        ((cmdOf args).writes (sys.svr.spaces idx) key).isSome →
        (sys.svr.spaces idx).deadlines key = none))
  | .serve (.connect _) => isTrue trivial
  | .serve (.sent _ _) => isTrue trivial
  | .serve (.close _) => isTrue trivial
  | .sweep _ _ => isTrue trivial

/-- Five seconds between two readings. -/
def fastClock : Nat → Int := fun reading => 5000 * reading

/-- A key gets a value, and a sweep runs. -/
def setMoments : List Moment :=
  [.serve (.connect 0), .serve (.command 0 [ascii "SET", ascii "k", ascii "w"]),
    .sweep (fun _ => 0) 3]

theorem fkSystem_lasting_set :
    ∃ sys, run (noted (fun _ => Act.fault) 1024 0 (ascii "k"))
      (fkSystemInit 1 false fastClock (fun _ => 0), none)
        setMoments = some (sys, some (ascii "w")) ∧
      (∀ out name, out.dbIdx = 0 → fkStr2upper name = ascii "GET" →
        RepliesWith (procArgs (fun _ => Act.fault) [name, ascii "k"] ⟨sys.svr, out⟩) ⟨sys.svr, out⟩
          (.bulk (ascii "w"))) ∧
      ∀ out, out.dbIdx = 0 → fkHandleExpiredKey (ascii "k") ⟨sys.svr, out⟩ = .ok false
        ⟨sys.svr, out⟩ := by
  have known : (run (noted (fun _ => Act.fault) 1024 0 (ascii "k"))
      (fkSystemInit 1 false fastClock (fun _ => 0), none)
      setMoments).map Prod.snd = some (some (ascii "w")) := by decide +kernel
  obtain ⟨⟨sys, expected⟩, reached, rfl⟩ := Option.map_eq_some_iff.mp known
  refine ⟨sys, reached, fkSystem_lasting (fun _ => Act.fault) 1024 0 (ascii "k")
    (by decide) ?_ ?_ reached⟩
  · simp only [setMoments, List.forall_mem_cons]
    exact ⟨trivial, (by decide +kernel : Admitted [ascii "SET", ascii "k", ascii "w"]),
      trivial, nofun⟩
  · decide +kernel

/-- A client gives the key a time limit, and another one sets it. -/
def setexMoments : List Moment :=
  [.serve (.connect 0), .serve (.command 0 [ascii "SETEX", ascii "k", ascii "1", ascii "v"]),
    .serve (.connect 1), .serve (.command 1 [ascii "SET", ascii "k", ascii "w"])]

/-- What a call leaves in the write buffer. -/
def wrote (outcome : Outcome Work Unit) : Option Bytes :=
  (returned outcome).map fun result => result.2.out.wbuf.payload

theorem wrote_of_repliesWith {outcome : Outcome Work Unit} {work : Work} {reply : Reply}
    (replies : RepliesWith outcome work reply) :
    wrote outcome = wrote (sendAll reply.calls work) := by
  unfold RepliesWith at replies
  rw [sendAll_apply]
  cases queued : queueAll work.svr.junk reply.calls work.out.wbuf with
  | ok value wbuf =>
      rw [queued] at replies
      obtain ⟨after, rfl⟩ := replies
      rfl
  | err wbuf =>
      rw [queued] at replies
      obtain ⟨after, rfl⟩ := replies
      rfl
  | fault =>
      rw [queued] at replies
      cases replies
      rfl

/-- The first time limit ends, and the second value is gone. -/
theorem fkSystem_loses_set :
    ∃ sys, run (noted (fun _ => Act.fault) 1024 0 (ascii "k"))
      (fkSystemInit 1 false fastClock (fun _ => 0), none)
        setexMoments = some (sys, some (ascii "w")) ∧
      ∃ out, sys.conns 1 = some out ∧ out.dbIdx = 0 ∧
        ¬ RepliesWith (procArgs (fun _ => Act.fault) [ascii "GET", ascii "k"] ⟨sys.svr, out⟩)
          ⟨sys.svr, out⟩ (.bulk (ascii "w")) := by
  have known : (run (noted (fun _ => Act.fault) 1024 0 (ascii "k"))
      (fkSystemInit 1 false fastClock (fun _ => 0), none)
      setexMoments).bind (fun pair => (pair.1.conns 1).map fun out => (pair.2, out.dbIdx,
        wrote (procArgs (fun _ => Act.fault) [ascii "GET", ascii "k"] ⟨pair.1.svr, out⟩),
        wrote (sendAll (Reply.bulk (ascii "w")).calls ⟨pair.1.svr, out⟩))) =
      some (some (ascii "w"), 0, some (ascii "+OK\r\n$-1\r\n"),
        some (ascii "+OK\r\n$1\r\nw\r\n")) := by
    decide +kernel
  obtain ⟨⟨sys, expected⟩, reached, found⟩ := Option.bind_eq_some_iff.mp known
  obtain ⟨out, connected, parts⟩ := Option.map_eq_some_iff.mp found
  obtain ⟨rfl, own, answered, wanted⟩ : expected = _ ∧ out.dbIdx = _ ∧ _ = _ ∧ _ = _ := by
    simpa only [Prod.mk.injEq] using parts
  refine ⟨sys, reached, out, connected, own, fun replies => ?_⟩
  have same := wrote_of_repliesWith replies
  rw [answered, wanted] at same
  revert same
  decide

end Freekick
