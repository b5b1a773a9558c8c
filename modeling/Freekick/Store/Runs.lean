import Freekick.Store.Dispatch
import Freekick.Store.System

/-!
# Runs of the server

What a command does to the whole server, and what holds in every state of a run: the
dictionaries are well formed, every deadline is a number, and every client has selected
a database that exists.
-/

namespace Freekick

open Lib.Call

/-! ## One command -/

/-- What a command of a client can do to the system. -/
inductive Commanded (fkCmdEval : Handler) (sys : FkSystem) (client : Nat) (args : List Bytes) :
    FkSystem → Prop
  | absent (gone : sys.conns client = none) : Commanded fkCmdEval sys client args sys
  | refused {out : FkConnOut} {answer part : Answer} {count : Nat} {wbuf : FkBuf} {after : Work}
        (connected : sys.conns client = some out)
      (ran : Work.answer ⟨sys.svr, out⟩ sys.svr.spaces (cmdOf args) = some answer)
      (queued : queueAll sys.svr.junk answer.reply.calls out.wbuf = .err wbuf)
      (cut : Work.answer ⟨sys.svr, out⟩ sys.svr.spaces ((cmdOf args).cut count) = some part)
      (leaves : Leaves ⟨sys.svr, out⟩ sys.svr.spaces ((cmdOf args).cut count) part after) :
      Commanded fkCmdEval sys client args (({ sys with svr := after.svr }).setConn client none)
  | done {out : FkConnOut} {answer : Answer} {wbuf : FkBuf} {after : Work}
      (connected : sys.conns client = some out)
      (ran : Work.answer ⟨sys.svr, out⟩ sys.svr.spaces (cmdOf args) = some answer)
      (queued : queueAll sys.svr.junk answer.reply.calls out.wbuf = .ok () wbuf)
      (leaves : Leaves ⟨sys.svr, out⟩ sys.svr.spaces (cmdOf args) answer after) :
      Commanded fkCmdEval sys client args
        (({ sys with svr := (after.log (entries fkCmdEval ⟨sys.svr, out⟩ args)).svr }).setConn
          client (some (after.withWbuf wbuf).out))

/-- The databases are as they should be, and every client has selected one of them. -/
structure FkSystem.Sound (sys : FkSystem) : Prop where
  ok : SvrOk ArgName sys.svr
  timed : sys.svr.Timed
  idx : ∀ client out, sys.conns client = some out → out.dbIdx < sys.svr.dbcnt

section Step

variable {fkCmdEval : Handler} {maxWbuf : Nat} {sys next : FkSystem} {client : Nat}
  {args : List Bytes}

theorem FkSystem.command_commanded (admitted : Admitted args) (ok : SvrOk ArgName sys.svr)
    (timed : sys.svr.Timed) (stepped : sys.command fkCmdEval client args = some next) :
    Commanded fkCmdEval sys client args next := by
  unfold FkSystem.command at stepped
  split at stepped
  · next gone =>
      cases stepped
      exact .absent gone
  · next out connected =>
      have dispatched := @procArgs_dispatched ArgName fkCmdEval ⟨sys.svr, out⟩ sys.svr.spaces args
        admitted.nonempty admitted.notEval ok timed.holds
      rw [fkConnProcCmd_args] at stepped
      generalize procArgs fkCmdEval args ⟨sys.svr, out⟩ = outcome at dispatched stepped
      cases dispatched with
      | crashed => cases stepped
      | overflow => cases stepped
      | @refused answer part count wbuf after ran queued cut leaves =>
          cases stepped
          exact @Commanded.refused _ _ _ _ out answer part count wbuf after connected ran
            queued cut leaves
      | done ran queued leaves =>
          cases stepped
          exact .done connected ran queued leaves

/-- A database that exists stays selected, or another one that exists is. -/
theorem Cmd.selects_lt (cmd : Cmd) {dbcnt idx : Nat} (inside : idx < dbcnt) :
    cmd.selects dbcnt idx < dbcnt := by
  cases cmd with
  | select text =>
      rw [Cmd.selects]
      split
      · exact inside
      · next known =>
          unfold Cmd.OutOfRange at known
          omega
  | _ => exact inside

/-- A command on another database changes this one only when it empties all. -/
theorem Cmd.after_other {cmd : Cmd} {dbcnt own idx : Nat} {spaces : Nat → Keyspace}
    {space : Keyspace} (inside : idx < dbcnt) (other : own ≠ idx) :
    cmd.after dbcnt own spaces space idx = if cmd = .flushall then .empty else spaces idx := by
  cases cmd with
  | flushall => exact if_pos inside
  | _ => exact Function.update_of_ne (Ne.symm other) ..

theorem Cmd.after_own {cmd : Cmd} {dbcnt idx : Nat} {clock : Nat → Int} {spaces : Nat → Keyspace}
    {answer : Answer} (inside : idx < dbcnt)
    (ran : cmd.run dbcnt clock (spaces idx) = some answer) :
    cmd.after dbcnt idx spaces answer.space idx = answer.space := by
  cases cmd with
  | flushall =>
      cases ran
      exact if_pos inside
  | _ => exact Function.update_self ..

theorem Leaves.dbcnt {work after : Work} {spaces : Nat → Keyspace} {cmd : Cmd} {answer : Answer}
    (leaves : Leaves work spaces cmd answer after) : after.svr.dbcnt = work.svr.dbcnt :=
  congrArg (fun parts => parts.1) leaves.frame

theorem Commanded.sound (commanded : Commanded fkCmdEval sys client args next) (sound : sys.Sound)
    (ok : SvrOk ArgName next.svr) : next.Sound ∧ next.svr.dbcnt = sys.svr.dbcnt := by
  cases commanded with
  | absent => exact ⟨sound, rfl⟩
  | @refused out answer part count wbuf after connected ran queued cut leaves =>
      have dbcnt : after.svr.dbcnt = sys.svr.dbcnt := leaves.dbcnt
      refine ⟨⟨ok, leaves.holds.timed, ?_⟩, dbcnt⟩
      refine FkSystem.each_setConn ?_ nofun
      change ∀ other out, sys.conns other = some out → out.dbIdx < after.svr.dbcnt
      rw [dbcnt]
      exact sound.idx
  | @done out answer wbuf after connected ran queued leaves =>
      have dbcnt : after.svr.dbcnt = sys.svr.dbcnt := leaves.dbcnt
      refine ⟨⟨ok, leaves.holds.timed, ?_⟩, dbcnt⟩
      change ∀ other (conn : FkConnOut), _ = some conn → conn.dbIdx < after.svr.dbcnt
      rw [dbcnt]
      refine FkSystem.each_setConn sound.idx ?_
      intro conn same
      rw [← Option.some.inj same]
      change after.out.dbIdx < _
      rw [leaves.idx]
      exact Cmd.selects_lt _ (sound.idx client out connected)

theorem FkSystem.step_sound {event : Event} (positive : 0 < sys.svr.dbcnt)
    (admitted : event.Admitted) (sound : sys.Sound)
    (stepped : sys.step fkCmdEval maxWbuf event = some next) :
    next.Sound ∧ next.svr.dbcnt = sys.svr.dbcnt := by
  have ok := FkSystem.step_ok admitted admitted.names sound.ok stepped
  cases event with
  | connect client =>
      cases stepped
      refine ⟨⟨ok, sound.timed, FkSystem.each_setConn sound.idx fun out same => ?_⟩, rfl⟩
      rw [← Option.some.inj same]
      exact positive
  | command client args =>
      exact (FkSystem.command_commanded admitted sound.ok sound.timed stepped).sound sound ok
  | sent client count =>
      cases stepped
      refine ⟨⟨ok, sound.timed, FkSystem.each_setConn sound.idx fun out same => ?_⟩, rfl⟩
      obtain ⟨old, connected, rfl⟩ := Option.map_eq_some_iff.mp same
      exact sound.idx client old connected
  | close client =>
      cases stepped
      exact ⟨⟨ok, sound.timed, FkSystem.each_setConn sound.idx nofun⟩, rfl⟩

theorem FkSystem.run_sound {events : List Event} (positive : 0 < sys.svr.dbcnt)
    (admitted : ∀ event ∈ events, event.Admitted) (sound : sys.Sound)
    (reached : sys.run fkCmdEval maxWbuf events = some next) :
    next.Sound ∧ next.svr.dbcnt = sys.svr.dbcnt := by
  induction events generalizing sys with
  | nil =>
      cases reached
      exact ⟨sound, rfl⟩
  | cons event rest ih =>
      obtain ⟨middle, stepped, later⟩ := Option.bind_eq_some_iff.mp reached
      obtain ⟨between, dbcnt⟩ :=
        FkSystem.step_sound positive (admitted event (List.mem_cons_self ..)) sound stepped
      rw [← dbcnt]
      exact ih (by rw [dbcnt]; exact positive)
        (fun other member => admitted other (List.mem_cons_of_mem _ member)) between later

theorem Commanded.clock (commanded : Commanded fkCmdEval sys client args next) :
    next.svr.clock = sys.svr.clock := by
  cases commanded with
  | absent => rfl
  | refused connected ran queued cut leaves =>
      exact congrArg (fun parts => parts.2.2.2.2.1) leaves.frame
  | done connected ran queued leaves => exact congrArg (fun parts => parts.2.2.2.2.1) leaves.frame

/-- The readings of the clock are given once and for all. -/
theorem FkSystem.run_clock {events : List Event} (positive : 0 < sys.svr.dbcnt)
    (admitted : ∀ event ∈ events, event.Admitted) (sound : sys.Sound)
    (reached : sys.run fkCmdEval maxWbuf events = some next) : next.svr.clock = sys.svr.clock := by
  induction events generalizing sys with
  | nil =>
      cases reached
      rfl
  | cons event rest ih =>
      obtain ⟨middle, stepped, later⟩ := Option.bind_eq_some_iff.mp reached
      obtain ⟨here, there⟩ := List.forall_mem_cons.mp admitted
      obtain ⟨between, dbcnt⟩ := FkSystem.step_sound positive here sound stepped
      have kept : middle.svr.clock = sys.svr.clock := by
        cases event with
        | command client args =>
            exact (FkSystem.command_commanded here sound.ok sound.timed stepped).clock
        | connect client =>
            cases stepped
            rfl
        | sent client count =>
            cases stepped
            rfl
        | close client =>
            cases stepped
            rfl
      exact (ih (by rw [dbcnt]; exact positive) there between later).trans kept

theorem fkSystemInit_sound (dbcnt : Nat) (blogOn : Bool) (clock : Nat → Int) (junk : Nat → UInt8) :
    (fkSystemInit dbcnt blogOn clock junk).Sound where
  ok := fkSystemInit_ok dbcnt blogOn clock junk
  timed := fkSvrInit_timed dbcnt blogOn clock junk
  idx := nofun

/-! ## Runs whose replies are accepted -/

variable (fkCmdEval maxWbuf) in
/-- Every event of a run meets a condition in the state it finds. -/
def Along (holds : FkSystem → Event → Prop) : FkSystem → List Event → Prop
  | _, [] => True
  | sys, event :: rest => holds sys event ∧
      ∀ next, sys.step fkCmdEval maxWbuf event = some next → Along holds next rest

theorem along_of_forall {holds : FkSystem → Event → Prop} {events : List Event}
    (each : ∀ event ∈ events, ∀ sys, holds sys event) (sys : FkSystem) :
    Along fkCmdEval maxWbuf holds sys events := by
  induction events generalizing sys with
  | nil => trivial
  | cons event rest ih =>
      refine ⟨each event (List.mem_cons_self ..) sys, fun next _ => ih ?_ next⟩
      exact fun other member => each other (List.mem_cons_of_mem _ member)

variable (fkCmdEval) in
/-- The reply of the event, if it has one, is accepted by the write buffer. -/
def Accepted (sys : FkSystem) : Event → Prop
  | .command client args => ∀ out, sys.conns client = some out →
      ∃ work, fkConnProcCmd fkCmdEval ⟨sys.svr, out⟩ (args.map some) = some (.ok, work)
  | _ => True

instance (sys : FkSystem) (event : Event) : Decidable (Accepted fkCmdEval sys event) :=
  match event with
  | .command client args =>
      match connected : sys.conns client with
      | none => isTrue fun out same => by
          rw [connected] at same
          cases same
      | some out =>
          decidable_of_iff ((fkConnProcCmd fkCmdEval ⟨sys.svr, out⟩ (args.map some)).map Prod.fst =
            some .ok) (by
              rw [Option.map_eq_some_iff]
              constructor
              · rintro ⟨⟨rt, work⟩, called, rfl⟩ other same
                rw [connected] at same
                cases same
                exact ⟨work, called⟩
              · intro accepted
                obtain ⟨work, called⟩ := accepted out connected
                exact ⟨(.ok, work), called, rfl⟩)
  | .connect _ => isTrue trivial
  | .sent _ _ => isTrue trivial
  | .close _ => isTrue trivial

instance decidableAlong {holds : FkSystem → Event → Prop}
    [decides : ∀ sys event, Decidable (holds sys event)]
    (sys : FkSystem) (events : List Event) : Decidable (Along fkCmdEval maxWbuf holds sys events) :=
  match events with
  | [] => isTrue trivial
  | event :: rest =>
      have (next : FkSystem) : Decidable (Along fkCmdEval maxWbuf holds next rest) :=
        decidableAlong next rest
      match stepped : sys.step fkCmdEval maxWbuf event with
      | none => decidable_of_iff (holds sys event) (by simp [Along, stepped])
      | some next =>
          decidable_of_iff (holds sys event ∧ Along fkCmdEval maxWbuf holds next rest)
            (by simp [Along, stepped])

theorem accepted_of_queued {out : FkConnOut} {answer : Answer} {wbuf : FkBuf}
    (admitted : Admitted args) (sound : sys.Sound) (connected : sys.conns client = some out)
    (ran : Work.answer ⟨sys.svr, out⟩ sys.svr.spaces (cmdOf args) = some answer)
    (queued : queueAll sys.svr.junk answer.reply.calls out.wbuf = .ok () wbuf) :
    Accepted fkCmdEval sys (.command client args) := by
  intro other same
  rw [connected] at same
  cases same
  have dispatched := @procArgs_dispatched ArgName fkCmdEval ⟨sys.svr, out⟩ sys.svr.spaces args
    admitted.nonempty admitted.notEval sound.ok sound.timed.holds
  rw [fkConnProcCmd_args]
  generalize procArgs fkCmdEval args ⟨sys.svr, out⟩ = outcome at dispatched
  rcases dispatched.known ran with ⟨_, overflows⟩ | ⟨_, _, _, fails⟩ | ⟨_, _, rfl, _⟩
  · cases queued.symm.trans overflows
  · cases queued.symm.trans fails
  · exact ⟨_, rfl⟩

/-- What an accepted command does. -/
theorem FkSystem.command_accepted {out : FkConnOut} (admitted : Admitted args) (sound : sys.Sound)
    (connected : sys.conns client = some out)
    (accepted : Accepted fkCmdEval sys (.command client args)) :
    ∃ answer wbuf after, Work.answer ⟨sys.svr, out⟩ sys.svr.spaces (cmdOf args) = some answer ∧
      queueAll sys.svr.junk answer.reply.calls out.wbuf = .ok () wbuf ∧
      Leaves ⟨sys.svr, out⟩ sys.svr.spaces (cmdOf args) answer after ∧
      sys.command fkCmdEval client args =
        some (({ sys with svr := (after.log (entries fkCmdEval ⟨sys.svr, out⟩ args)).svr }).setConn
          client (some (after.withWbuf wbuf).out)) := by
  obtain ⟨work, called⟩ := accepted out connected
  have dispatched := @procArgs_dispatched ArgName fkCmdEval ⟨sys.svr, out⟩ sys.svr.spaces args
    admitted.nonempty admitted.notEval sound.ok sound.timed.holds
  unfold FkSystem.command
  rw [connected]
  dsimp only
  rw [fkConnProcCmd_args] at called ⊢
  generalize procArgs fkCmdEval args ⟨sys.svr, out⟩ = outcome at dispatched called ⊢
  cases dispatched with
  | crashed => cases called
  | overflow => cases called
  | refused => cases called
  | @done answer wbuf after ran queued leaves =>
      exact ⟨answer, wbuf, after, ran, queued, leaves, rfl⟩

end Step

/-! ## Runs from the start -/

/-- A run of the server from empty databases. -/
structure FkRun (fkCmdEval : Handler) (dbcnt : Nat) where
  maxWbuf : Nat
  blogOn : Bool
  clock : Nat → Int
  junk : Nat → UInt8
  events : List Event
  final : FkSystem
  admitted : ∀ event ∈ events, event.Admitted
  reached : (fkSystemInit dbcnt blogOn clock junk).run fkCmdEval maxWbuf events = some final

namespace FkRun

variable {fkCmdEval : Handler} {dbcnt : Nat} (run : FkRun fkCmdEval dbcnt)

def start : FkSystem := fkSystemInit dbcnt run.blogOn run.clock run.junk

/-- Every reply is accepted by the write buffer of its client. -/
def Accepted : Prop := Along fkCmdEval run.maxWbuf (Freekick.Accepted fkCmdEval)
  run.start run.events

instance : Decidable run.Accepted :=
  inferInstanceAs (Decidable
    (Along fkCmdEval run.maxWbuf (Freekick.Accepted fkCmdEval) run.start run.events))

/-- A run that does not crash. -/
def of (maxWbuf : Nat) (clock : Nat → Int) (junk : Nat → UInt8) (events : List Event)
    (admitted : ∀ event ∈ events, event.Admitted)
    (runs : ((fkSystemInit dbcnt false clock junk).run fkCmdEval maxWbuf events).isSome) :
    FkRun fkCmdEval dbcnt where
  maxWbuf := maxWbuf
  blogOn := false
  clock := clock
  junk := junk
  events := events
  final := Option.get _ runs
  admitted := admitted
  reached := (Option.some_get runs).symm

theorem sound (positive : 0 < dbcnt) : run.final.Sound ∧ run.final.svr.dbcnt = dbcnt :=
  FkSystem.run_sound positive run.admitted
    (fkSystemInit_sound dbcnt run.blogOn run.clock run.junk) run.reached

theorem final_clock (positive : 0 < dbcnt) : run.final.svr.clock = run.clock :=
  FkSystem.run_clock positive run.admitted
    (fkSystemInit_sound dbcnt run.blogOn run.clock run.junk) run.reached

end FkRun

end Freekick
