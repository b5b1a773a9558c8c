import Mathlib.Logic.Function.Basic
import Freekick.Lib.Steps

/-!
# The children of the server: `fk_svr_timer_cb`, `fk_kdb_bgsave`, `fk_blog_bgrewrite`, `fk_cmd_save`

The timer waits for the child that saves and for the one that rewrites the log, and starts
new ones.  `server.save_pid` and `server.rewrite_pid` tell whether there is a child.  They
are reset only when the child has ended with `EXIT_SUCCESS`.
-/

namespace Freekick

open Lib.Steps

/-- What a child is for. -/
inductive Job where
  | save
  | rewrite
  deriving DecidableEq, Repr

/-- How a process ends. -/
inductive Exit where
  | exited (code : Nat)
  | killed (signal : Nat)
  deriving DecidableEq, Repr

def exitSuccess : Exit := .exited 0

/-- A child that was not reaped yet; `none` while it runs. -/
structure Child where
  job : Job
  ended : Option Exit
  deriving DecidableEq, Repr

/-- The process identifiers in the server, the children that exist, and whether the server
itself is inside `fk_kdb_save`. -/
structure FkChildren where
  pid : Job → Int
  procs : Int → Option Child
  saving : Bool

/-- `fk_svr_init`; there is no child yet. -/
def fkChildrenInit : FkChildren := ⟨fun _ => -1, fun _ => none, false⟩

/-! ## The calls -/

/-- `waitpid` with `WNOHANG`: what it returns, the status and the children that are left. -/
def waitpid (procs : Int → Option Child) (pid : Int) : Int × Option Exit × (Int → Option Child) :=
  match procs pid with
  | none => (-1, none, procs)
  | some child =>
      match child.ended with
      | none => (0, none, procs)
      | some status => (pid, some status, Function.update procs pid none)

namespace FkChildren

/-- The part of `fk_svr_timer_cb` that waits for a child. -/
def reap (job : Job) (state : FkChildren) : FkChildren :=
  if state.pid job = -1 then state
  else
    let waited := waitpid state.procs (state.pid job)
    if waited.1 = state.pid job ∧ waited.2.1 = some exitSuccess then
      { state with pid := Function.update state.pid job (-1), procs := waited.2.2 }
    else { state with procs := waited.2.2 }

/-- `fk_kdb_bgsave` and `fk_blog_bgrewrite`, with what `fork` returns.  `none` means that it
does not return this: the identifier is not one of a child that exists. -/
def spawn (job : Job) (forked : Int) (state : FkChildren) : Option FkChildren :=
  if state.pid job ≠ -1 then some state
  else if forked = -1 then some state
  else if 0 < forked ∧ state.procs forked = none then
    some { state with
      pid := Function.update state.pid job forked
      procs := Function.update state.procs forked (some ⟨job, none⟩) }
  else none

end FkChildren

def fkKdbBgsave : Int → FkChildren → Option FkChildren := FkChildren.spawn .save
def fkBlogBgrewrite : Int → FkChildren → Option FkChildren := FkChildren.spawn .rewrite

/-- `setting.dump` and `setting.blog_on`. -/
structure FkPersist where
  dump : Bool
  blogOn : Bool

/-- What happens around one call of the timer: a shutdown signal, and what `fork` returns. -/
structure Tick where
  signaled : Bool
  saveFork : Int
  rewriteFork : Int

def fkSvrTimerCb (setting : FkPersist) (tick : Tick) (state : FkChildren) : Option FkChildren :=
  let waited := (state.reap .save).reap .rewrite
  if tick.signaled then some waited
  else
    (if setting.dump then fkKdbBgsave tick.saveFork waited else some waited).bind fun next =>
      if setting.blogOn then fkBlogBgrewrite tick.rewriteFork next else some next

/-- The parent calls the timer or `SAVE` when it does nothing else; a save takes a while. -/
inductive ChildEvent where
  | tick (tick : Tick)
  | save
  | saved
  | ends (pid : Int) (status : Exit)

/-- `none` is an event that cannot happen there. -/
def FkChildren.step (setting : FkPersist) (state : FkChildren) : ChildEvent → Option FkChildren
  | .tick tick => if state.saving then none else fkSvrTimerCb setting tick state
  | .save =>
      if state.saving then none
      else if state.pid .save = -1 then some { state with saving := true }
      else some state
  | .saved => if state.saving then some { state with saving := false } else none
  | .ends pid status =>
      match state.procs pid with
      | some ⟨job, none⟩ =>
          some { state with procs := Function.update state.procs pid (some ⟨job, some status⟩) }
      | _ => none

/-! ## What should hold -/

namespace FkChildren

/-- The child with the identifier in the server was not reaped. -/
def Tracks (state : FkChildren) (job : Job) : Prop :=
  state.pid job ≠ -1 → ∃ ended, state.procs (state.pid job) = some ⟨job, ended⟩

def Tracked (state : FkChildren) : Prop := ∀ job, state.Tracks job

/-- A process that writes the temporary dump file. -/
inductive Writes (state : FkChildren) : Option Int → Prop
  | parent (saving : state.saving = true) : Writes state none
  | child {pid : Int} (running : state.procs pid = some ⟨.save, none⟩) : Writes state (some pid)

def OneWriter (state : FkChildren) : Prop :=
  ∀ first second, state.Writes first → state.Writes second → first = second

/-- The child did not end, or it ended with `EXIT_SUCCESS`. -/
def Clean (state : FkChildren) (job : Job) : Prop :=
  ∀ other status, state.pid job ≠ -1 → state.procs (state.pid job) = some ⟨other, some status⟩ →
    status = exitSuccess

/-- No call of the timer finds a child that ended in another way. -/
def Spotless (state : FkChildren) : ChildEvent → Prop
  | .tick _ => ∀ job, state.Clean job
  | _ => True

/-! ## Waiting and starting -/

section Calls

variable {state next : FkChildren} {job other : Job} {forked : Int}

/-- The outcomes of waiting for a child. -/
theorem reap_cases (job : Job) (state : FkChildren) :
    (state.reap job = state ∧
      (state.pid job = -1 ∨ ∀ other status,
        state.procs (state.pid job) ≠ some ⟨other, some status⟩)) ∨
    (∃ other status, state.pid job ≠ -1 ∧ state.procs (state.pid job) = some ⟨other, some status⟩ ∧
      state.reap job = { state with
        pid := if status = exitSuccess then Function.update state.pid job (-1) else state.pid
        procs := Function.update state.procs (state.pid job) none }) := by
  unfold reap waitpid
  by_cases none : state.pid job = -1
  · rw [if_pos none]
    exact .inl ⟨rfl, .inl none⟩
  · rw [if_neg none]
    cases held : state.procs (state.pid job) with
    | none =>
        dsimp only
        rw [if_neg (fun both => nomatch both.2)]
        exact .inl ⟨rfl, .inr nofun⟩
    | some child =>
        obtain ⟨kind, ended⟩ := child
        cases ended with
        | none =>
            dsimp only
            rw [if_neg (fun both => nomatch both.2)]
            exact .inl ⟨rfl, .inr nofun⟩
        | some status =>
            refine .inr ⟨kind, status, none, rfl, ?_⟩
            dsimp only
            by_cases success : status = exitSuccess
            · rw [if_pos ⟨rfl, congrArg some success⟩, if_pos success]
            · rw [if_neg (fun both => success (Option.some.inj both.2)), if_neg success]

theorem reap_saving (job : Job) (state : FkChildren) : (state.reap job).saving = state.saving := by
  rcases reap_cases job state with ⟨same, _⟩ | ⟨_, _, _, _, same⟩ <;> rw [same]

/-- A child is tracked after a wait exactly when it did not fail. -/
theorem reap_tracks_iff (tracks : state.Tracks job) : (state.reap job).Tracks job ↔
    state.Clean job := by
  rcases reap_cases job state with ⟨same, unended⟩ | ⟨kind, status, some, held, same⟩
  · rw [same]
    refine iff_of_true tracks fun other status some held => ?_
    exact (unended.resolve_left some other status held).elim
  · rw [same]
    unfold Tracks Clean
    dsimp only
    by_cases success : status = exitSuccess
    · rw [if_pos success, Function.update_self]
      refine iff_of_true (fun wrong => absurd rfl wrong) fun other again _ found => ?_
      rw [held] at found
      cases found
      exact success
    · rw [if_neg success, Function.update_self]
      refine iff_of_false (fun found => ?_) fun clean => success (clean kind status some held)
      obtain ⟨ended, wrong⟩ := found some
      cases wrong

/-- The wait for another child. -/
theorem reap_other (differs : other ≠ job)
    (apart : state.pid job ≠ -1 → state.pid job ≠ state.pid other) :
    (state.reap job).pid other = state.pid other ∧
      (state.reap job).procs (state.pid other) = state.procs (state.pid other) := by
  rcases reap_cases job state with ⟨same, _⟩ | ⟨kind, status, some, _, same⟩
  · rw [same]
    exact ⟨rfl, rfl⟩
  · rw [same]
    refine ⟨?_, Function.update_of_ne (Ne.symm (apart some)) ..⟩
    dsimp only
    split
    · exact Function.update_of_ne differs ..
    · rfl

theorem tracks_congr (pid : next.pid job = state.pid job)
    (procs : next.procs (state.pid job) = state.procs (state.pid job)) :
    next.Tracks job ↔ state.Tracks job := by
  unfold Tracks
  rw [pid, procs]

theorem clean_congr (pid : next.pid job = state.pid job)
    (procs : next.procs (state.pid job) = state.procs (state.pid job)) :
    next.Clean job ↔ state.Clean job := by
  unfold Clean
  rw [pid, procs]

/-- Two children that are tracked are not one. -/
theorem apart_of_tracks (tracks : state.Tracks job) (again : state.Tracks other)
    (differs : other ≠ job) :
    state.pid job ≠ -1 → state.pid job ≠ state.pid other := by
  intro some same
  obtain ⟨ended, held⟩ := tracks some
  obtain ⟨ended', held'⟩ := again (same ▸ some)
  rw [← same, held] at held'
  cases held'
  exact differs rfl

/-- After a wait the identifier is the same, or there is none. -/
theorem reap_pid (job : Job) (state : FkChildren) :
    (state.reap job).pid job = state.pid job ∨ (state.reap job).pid job = -1 := by
  rcases reap_cases job state with ⟨same, _⟩ | ⟨kind, status, _, _, same⟩
  · exact .inl (by rw [same])
  · rw [same]
    dsimp only
    split
    · exact .inr (Function.update_self ..)
    · exact .inl rfl

/-- A new child changes nothing about what is tracked, also when it gets the identifier of
a child that was reaped. -/
theorem spawn_tracks_iff (spawned : state.spawn job forked = some next) : next.Tracks other ↔
    state.Tracks other := by
  unfold spawn at spawned
  split at spawned
  · cases spawned
    exact Iff.rfl
  · next none =>
      split at spawned
      · cases spawned
        exact Iff.rfl
      · split at spawned
        · next fresh =>
            cases spawned
            unfold Tracks
            dsimp only
            by_cases same : other = job
            · subst same
              refine iff_of_true (fun _ => ⟨Option.none, ?_⟩) fun some => absurd some none
              rw [Function.update_self, Function.update_self]
            · rw [Function.update_of_ne same]
              by_cases reused : state.pid other = forked
              · rw [reused, Function.update_self, fresh.2]
                have some : forked ≠ -1 := by omega
                refine iff_of_false (fun found => ?_) fun found => ?_
                · obtain ⟨ended, held⟩ := found some
                  cases held
                  exact same rfl
                · obtain ⟨ended, held⟩ := found some
                  cases held
              · rw [Function.update_of_ne reused]
        · cases spawned

/-! ## One call of the timer -/

theorem waits_tracked_iff (tracked : state.Tracked) :
    ((state.reap .save).reap .rewrite).Tracked ↔ ∀ job, state.Clean job := by
  have save := tracked .save
  have rewrite := tracked .rewrite
  -- The first wait leaves the other child alone, and the second one the first child.
  have first := @reap_other state .save .rewrite (by decide)
    (apart_of_tracks save rewrite (by decide))
  have between : (state.reap .save).Tracks .rewrite := (tracks_congr first.1 first.2).mpr rewrite
  have apart : (state.reap .save).pid .rewrite ≠ -1 →
      (state.reap .save).pid .rewrite ≠ (state.reap .save).pid .save := by
    rw [first.1]
    intro some
    rcases reap_pid .save state with same | gone
    · rw [same]
      exact apart_of_tracks rewrite save (by decide) some
    · rw [gone]
      exact some
  have second := @reap_other (state.reap .save) .rewrite .save (by decide) apart
  have saved : ((state.reap .save).reap .rewrite).Tracks .save ↔ state.Clean .save :=
    (tracks_congr second.1 second.2).trans (reap_tracks_iff save)
  have rewritten : ((state.reap .save).reap .rewrite).Tracks .rewrite ↔ state.Clean .rewrite :=
    (reap_tracks_iff between).trans (clean_congr first.1 first.2)
  refine ⟨fun all job => ?_, fun clean job => ?_⟩
  · cases job with
    | save => exact saved.mp (all .save)
    | rewrite => exact rewritten.mp (all .rewrite)
  · cases job with
    | save => exact saved.mpr (clean .save)
    | rewrite => exact rewritten.mpr (clean .rewrite)

variable {setting : FkPersist} {tick : Tick} {event : ChildEvent}

/-- The two calls after the waits. -/
theorem spawns_tracked_iff
    (called : (if setting.dump then fkKdbBgsave tick.saveFork state else some state).bind
      (fun next =>
        if setting.blogOn then fkBlogBgrewrite tick.rewriteFork next else some next) = some next) :
    next.Tracked ↔ state.Tracked := by
  obtain ⟨middle, saved, rewritten⟩ := Option.bind_eq_some_iff.mp called
  have first : middle.Tracked ↔ state.Tracked := by
    split at saved
    · exact forall_congr' fun job => spawn_tracks_iff saved
    · cases saved
      exact Iff.rfl
  refine Iff.trans ?_ first
  split at rewritten
  · exact forall_congr' fun job => spawn_tracks_iff rewritten
  · cases rewritten
    exact Iff.rfl

theorem fkSvrTimerCb_tracked_iff (tracked : state.Tracked)
    (called : fkSvrTimerCb setting tick state = some next) :
    next.Tracked ↔ ∀ job, state.Clean job := by
  refine Iff.trans ?_ (waits_tracked_iff tracked)
  unfold fkSvrTimerCb at called
  dsimp only at called
  split at called
  · cases called
    exact Iff.rfl
  · exact spawns_tracked_iff called

theorem step_tracked_iff (tracked : state.Tracked)
    (stepped : state.step setting event = some next) :
    next.Tracked ↔ state.Spotless event := by
  cases event with
  | tick tick =>
      rw [step] at stepped
      split at stepped
      · cases stepped
      · exact fkSvrTimerCb_tracked_iff tracked stepped
  | save =>
      rw [step] at stepped
      refine iff_of_true ?_ trivial
      split at stepped
      · cases stepped
      · split at stepped <;> cases stepped <;> exact tracked
  | saved =>
      rw [step] at stepped
      split at stepped <;> cases stepped
      exact iff_of_true tracked trivial
  | ends pid status =>
      rw [step] at stepped
      split at stepped <;> cases stepped
      next job running =>
        refine iff_of_true (fun wanted some => ?_) trivial
        obtain ⟨ended, held⟩ := tracked wanted some
        dsimp only at some ⊢
        by_cases same : state.pid wanted = pid
        · rw [same, running] at held
          cases held
          rw [same, Function.update_self]
          exact ⟨_, rfl⟩
        · rw [Function.update_of_ne same]
          exact ⟨ended, held⟩

/-! ## The temporary file -/

/-- The server knows its only child that saves, and does not save itself meanwhile. -/
structure Sole (state : FkChildren) : Prop where
  positive : ∀ pid, state.procs pid ≠ none → 0 < pid
  known : ∀ pid ended, state.procs pid = some ⟨.save, ended⟩ → state.pid .save = pid
  idle : state.saving = true → state.pid .save = -1

theorem Sole.oneWriter (sole : state.Sole) : state.OneWriter := by
  have apart : ∀ {pid}, state.saving = true → state.procs pid ≠ some ⟨.save, none⟩ := by
    intro pid saving running
    have same := sole.known pid none running
    have positive := sole.positive pid (by rw [running]; nofun)
    have idle := sole.idle saving
    omega
  intro first second here there
  cases here with
  | parent saving =>
      cases there with
      | parent => rfl
      | child running => exact absurd running (apart saving)
  | child running =>
      cases there with
      | parent saving => exact absurd running (apart saving)
      | child again => rw [← sole.known _ _ running, ← sole.known _ _ again]

theorem Sole.reap (sole : state.Sole) (job : Job) (busy : state.saving = false) :
    (state.reap job).Sole := by
  rcases reap_cases job state with ⟨same, _⟩ | ⟨kind, status, some, held, same⟩
  · rw [same]
    exact sole
  · rw [same]
    have others : ∀ {pid child}, Function.update state.procs (state.pid job) none pid =
        Option.some child → pid ≠ state.pid job ∧ state.procs pid = Option.some child := by
      intro pid child found
      by_cases here : pid = state.pid job
      · rw [here, Function.update_self] at found
        cases found
      · rw [Function.update_of_ne here] at found
        exact ⟨here, found⟩
    refine ⟨fun pid found => ?_, fun pid ended found => ?_, fun saving => ?_⟩
    · obtain ⟨child, present⟩ := Option.ne_none_iff_exists'.mp found
      exact sole.positive pid (by rw [(others present).2]; nofun)
    · obtain ⟨apart, present⟩ := others found
      have known := sole.known pid ended present
      dsimp only
      split
      · cases job with
        | save => exact absurd known.symm apart
        | rewrite => exact known
      · exact known
    · change state.saving = true at saving
      rw [busy] at saving
      cases saving

theorem Sole.spawn (sole : state.Sole) (busy : state.saving = false)
    (spawned : state.spawn job forked = some next) :
    next.Sole ∧ next.saving = false := by
  unfold FkChildren.spawn at spawned
  split at spawned
  · cases spawned
    exact ⟨sole, busy⟩
  · next absent =>
      split at spawned
      · cases spawned
        exact ⟨sole, busy⟩
      · split at spawned
        · next fresh =>
            cases spawned
            refine ⟨⟨fun pid found => ?_, fun pid ended found => ?_, fun saving => ?_⟩, busy⟩
            · by_cases here : pid = forked
              · exact here ▸ fresh.1
              · dsimp only at found
                rw [Function.update_of_ne here] at found
                exact sole.positive pid found
            · dsimp only at found ⊢
              by_cases here : pid = forked
              · rw [here, Function.update_self] at found
                cases found
                rw [here, Function.update_self]
              · rw [Function.update_of_ne here] at found
                have known := sole.known pid ended found
                cases job with
                | save =>
                    have positive := sole.positive pid (by rw [found]; nofun)
                    have none : state.pid .save = -1 := not_not.mp absent
                    omega
                | rewrite => exact known
            · change state.saving = true at saving
              rw [busy] at saving
              cases saving
        · cases spawned

theorem Sole.step (sole : state.Sole) (stepped : state.step setting event = some next) :
    next.Sole := by
  cases event with
  | tick tick =>
      rw [FkChildren.step] at stepped
      split at stepped
      · cases stepped
      · next busy =>
          have busy : state.saving = false := Bool.eq_false_iff.mpr busy
          have first : (state.reap .save).saving = false := (reap_saving .save state).trans busy
          have second := (reap_saving .rewrite (state.reap .save)).trans first
          have waited := (sole.reap .save busy).reap .rewrite first
          unfold fkSvrTimerCb at stepped
          dsimp only at stepped
          split at stepped
          · cases stepped
            exact waited
          · obtain ⟨middle, saved, rewritten⟩ := Option.bind_eq_some_iff.mp stepped
            have between : middle.Sole ∧ middle.saving = false := by
              split at saved
              · exact waited.spawn second saved
              · cases saved
                exact ⟨waited, second⟩
            split at rewritten
            · exact (between.1.spawn between.2 rewritten).1
            · cases rewritten
              exact between.1
  | save =>
      rw [FkChildren.step] at stepped
      split at stepped
      · cases stepped
      · split at stepped
        · next none =>
            cases stepped
            exact ⟨sole.positive, sole.known, fun _ => none⟩
        · cases stepped
          exact sole
  | saved =>
      rw [FkChildren.step] at stepped
      split at stepped <;> cases stepped
      exact ⟨sole.positive, sole.known, nofun⟩
  | ends pid status =>
      rw [FkChildren.step] at stepped
      split at stepped <;> cases stepped
      next job running =>
        refine ⟨fun wanted found => ?_, fun wanted ended found => ?_, sole.idle⟩
        · by_cases here : wanted = pid
          · exact sole.positive wanted (by rw [here, running]; nofun)
          · dsimp only at found
            rw [Function.update_of_ne here] at found
            exact sole.positive wanted found
        · dsimp only at found
          by_cases here : wanted = pid
          · rw [here, Function.update_self] at found
            cases found
            exact (sole.known pid none running).trans here.symm
          · rw [Function.update_of_ne here] at found
            exact sole.known wanted ended found

end Calls

end FkChildren

/-! ## Whole runs -/

/-- No child is lost in a run exactly when no call of the timer finds one that did not end
with `EXIT_SUCCESS`; and never do two processes write the temporary file. -/
theorem fkSvrTimerCb_tracked_all (setting : FkPersist) {events : List ChildEvent}
    {final : FkChildren} (reached :
      run (FkChildren.step setting) fkChildrenInit events = some final) :
    ((∀ count state, run (FkChildren.step setting) fkChildrenInit (events.take count) = some state →
      state.Tracked) ↔ Throughout (FkChildren.step setting) FkChildren.Spotless fkChildrenInit
        events) ∧ final.OneWriter := by
  refine ⟨?_, ?_⟩
  · refine @kept_iff_throughout _ _ _ _ _ _ _ (fun _ => True) _ (fun _ => True)
      (fun state event next _ _ tracked stepped =>
        ⟨trivial, FkChildren.step_tracked_iff tracked stepped⟩) trivial
      (fun job some => absurd rfl some) (fun _ _ => trivial) reached
  · have start : fkChildrenInit.Sole := by
      refine ⟨fun pid found => absurd rfl found, fun pid ended found => ?_, fun _ => rfl⟩
      change (none : Option Child) = _ at found
      cases found
    have sole : final.Sole := @run_invariant _ _ _ _ _ _ _ (fun _ => True)
      (fun state event next sole _ stepped => FkChildren.Sole.step sole stepped) start
        (fun _ _ => trivial) reached
    exact sole.oneWriter

/-- A child saves and ends well; meanwhile and afterwards a client asks for a save. -/
def savingEvents : List ChildEvent :=
  [.tick ⟨false, 7, -1⟩, .save, .ends 7 (.exited 0), .tick ⟨true, -1, -1⟩, .save, .saved]

theorem fkSvrTimerCb_tracked_all_saving :
    ∃ final, run (FkChildren.step ⟨true, true⟩) fkChildrenInit savingEvents = some final ∧
      ((∀ count state, run (FkChildren.step ⟨true, true⟩) fkChildrenInit (savingEvents.take count) =
        some state →
          state.Tracked) ↔
        Throughout (FkChildren.step ⟨true, true⟩) FkChildren.Spotless fkChildrenInit savingEvents) ∧
        final.OneWriter := by
  have ends : (run (FkChildren.step ⟨true, true⟩) fkChildrenInit savingEvents).isSome :=
    by decide +kernel
  obtain ⟨final, reached⟩ := Option.isSome_iff_exists.mp ends
  exact ⟨final, reached, fkSvrTimerCb_tracked_all ⟨true, true⟩ reached⟩

/-- The child that saves fails, and the timer is called twice more. -/
def failingEvents : List ChildEvent :=
  [.tick ⟨false, 7, -1⟩, .ends 7 (.exited 1), .tick ⟨false, 8, -1⟩, .tick ⟨false, 8, -1⟩]

/-- The server still holds the identifier of the child that it has reaped. -/
theorem fkSvrTimerCb_loses_child :
    ∃ final, run (FkChildren.step ⟨true, false⟩) fkChildrenInit failingEvents = some final ∧
      final.pid .save = 7 ∧ final.procs 7 = none ∧ ¬ final.Tracked := by
  have known : (run (FkChildren.step ⟨true, false⟩) fkChildrenInit failingEvents).map
      (fun final => (final.pid .save, final.procs 7)) = some (7, none) := by decide +kernel
  obtain ⟨final, reached, parts⟩ := Option.map_eq_some_iff.mp known
  obtain ⟨pid, procs⟩ := Prod.mk.inj parts
  refine ⟨final, reached, pid, procs, fun tracked => ?_⟩
  obtain ⟨ended, held⟩ := tracked .save (by rw [pid]; decide)
  rw [pid, procs] at held
  cases held

end Freekick
