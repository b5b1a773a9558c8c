import Mathlib.Init

/-!
# Runs of a step function

A step may have no result, which ends the run.  What every step keeps holds at the end
of a run, also when it takes a condition on the steps.
-/

namespace Freekick.Lib.Steps

variable {S E N : Type}

def run (step : S → E → Option S) : S → List E → Option S
  | state, [] => some state
  | state, event :: rest => (step state event).bind fun next => run step next rest

/-- Every event of a run meets a condition in the state it finds. -/
def Throughout (step : S → E → Option S) (holds : S → E → Prop) : S → List E → Prop
  | _, [] => True
  | state, event :: rest =>
      holds state event ∧ ∀ next, step state event = some next → Throughout step holds next rest

/-- A step together with a note that is brought up to date. -/
def noting (step : S → E → Option S) (note : N → S → E → N) : S × N → E → Option (S × N) :=
  fun pair event =>
  (step pair.1 event).map fun next => (next, note pair.2 pair.1 event)

section Rules

variable {step : S → E → Option S} {holds : S → E → Prop} {state final : S} {events : List E}

instance decidableThroughout [decides : ∀ state event, Decidable (holds state event)] (state : S)
    (events : List E) :
    Decidable (Throughout step holds state events) :=
  match events with
  | [] => isTrue trivial
  | event :: rest =>
      have (next : S) : Decidable (Throughout step holds next rest) := decidableThroughout next rest
      match stepped : step state event with
      | none => decidable_of_iff (holds state event) (by simp [Throughout, stepped])
      | some next =>
          decidable_of_iff (holds state event ∧ Throughout step holds next rest)
            (by simp [Throughout, stepped])

/-- The induction over a run. -/
theorem run_keeps {inv : S → Prop} {good : E → Prop}
    (kept : ∀ state event next, inv state → good event → holds state event →
      step state event = some next → inv next)
    (start : inv state) (each : ∀ event ∈ events, good event)
    (along : Throughout step holds state events) (reached : run step state events = some final) :
    inv final := by
  induction events generalizing state with
  | nil =>
      cases reached
      exact start
  | cons event rest ih =>
      obtain ⟨next, stepped, later⟩ := Option.bind_eq_some_iff.mp reached
      obtain ⟨here, there⟩ := List.forall_mem_cons.mp each
      exact ih (kept state event next start here along.1 stepped) there (along.2 next stepped) later

/-- A condition along a run holds of the event that follows a part of it. -/
theorem holds_of_throughout {before rest : List E} {event : E} {middle : S}
    (along : Throughout step holds state (before ++ event :: rest))
    (reached : run step state before = some middle) :
    holds middle event := by
  induction before generalizing state with
  | nil =>
      cases reached
      exact along.1
  | cons first before ih =>
      obtain ⟨next, stepped, later⟩ := Option.bind_eq_some_iff.mp reached
      exact ih (along.2 next stepped) later

theorem throughout_of_forall (always : ∀ state event, holds state event) :
    Throughout step holds state events := by
  induction events generalizing state with
  | nil => trivial
  | cons event rest ih => exact ⟨always state event, fun next _ => ih⟩

/-- What every step keeps, whatever it finds. -/
theorem run_invariant {inv : S → Prop} {good : E → Prop}
    (kept : ∀ state event next, inv state → good event → step state event = some next → inv next)
    (start : inv state) (each : ∀ event ∈ events, good event)
    (reached : run step state events = some final) : inv final :=
  @run_keeps S E step (fun _ _ => True) state final events inv good
    (fun state event next known good _ stepped => kept state event next known good stepped)
    start each (throughout_of_forall fun _ _ => trivial) reached

/-- A property that a step keeps exactly when it meets the condition holds all along a run
exactly when every step meets it. -/
theorem kept_iff_throughout_along {inv kept : S → Prop} {meets : S → E → Prop}
    (steps : ∀ state event next, inv state → meets state event → kept state →
      step state event = some next → inv next ∧ (kept next ↔ holds state event))
    (start : inv state) (first : kept state) (along : Throughout step meets state events)
    (reached : run step state events = some final) :
    (∀ count middle, run step state (events.take count) = some middle → kept middle) ↔
      Throughout step holds state events := by
  induction events generalizing state with
  | nil =>
      refine ⟨fun _ => trivial, fun _ count middle ran => ?_⟩
      rw [List.take_nil] at ran
      cases ran
      exact first
  | cons event rest ih =>
      obtain ⟨next, stepped, later⟩ := Option.bind_eq_some_iff.mp reached
      obtain ⟨here, there⟩ := along
      obtain ⟨after, exactly⟩ := steps state event next start here first stepped
      have moved : ∀ count, run step state ((event :: rest).take (count + 1)) =
          run step next (rest.take count) := by
        intro count
        rw [List.take_succ_cons, run, stepped, Option.bind_some]
      refine ⟨fun always => ?_, fun ⟨spared, along⟩ count middle ran => ?_⟩
      · have holds : kept next := always 1 next ((moved 0).trans (by rw [List.take_zero, run]))
        refine ⟨exactly.mp holds, fun other same => ?_⟩
        obtain rfl := Option.some.inj (stepped.symm.trans same)
        exact (ih after holds (there next stepped) later).mp fun count middle ran =>
          always (count + 1) middle ((moved count).trans ran)
      · cases count with
        | zero =>
            cases ran
            exact first
        | succ count =>
            exact (ih after (exactly.mpr spared) (there next stepped) later).mpr
              (along next stepped) count middle ((moved count).symm.trans ran)

theorem throughout_of_mem {good : E → Prop} (each : ∀ event ∈ events, good event) :
    Throughout step (fun _ event => good event) state events := by
  induction events generalizing state with
  | nil => trivial
  | cons event rest ih =>
      obtain ⟨here, there⟩ := List.forall_mem_cons.mp each
      exact ⟨here, fun next _ => ih there⟩

/-- The same for a condition on the events alone. -/
theorem kept_iff_throughout {inv kept : S → Prop} {good : E → Prop}
    (steps : ∀ state event next, inv state → good event → kept state →
      step state event = some next → inv next ∧ (kept next ↔ holds state event))
    (start : inv state) (first : kept state) (each : ∀ event ∈ events, good event)
    (reached : run step state events = some final) :
    (∀ count middle, run step state (events.take count) = some middle → kept middle) ↔
      Throughout step holds state events :=
  kept_iff_throughout_along steps start first (throughout_of_mem each) reached

/-- Two conditions that are the same on every state with an invariant, which they keep. -/
theorem throughout_iff {inv : S → Prop} {meets : S → E → Prop}
    (same : ∀ state event, inv state → (holds state event ↔ meets state event))
    (kept : ∀ state event next, inv state → meets state event → step state event = some next →
      inv next) (start : inv state) :
    Throughout step holds state events ↔ Throughout step meets state events := by
  induction events generalizing state with
  | nil => exact Iff.rfl
  | cons event rest ih =>
      have later : meets state event → ∀ next, step state event = some next →
          (Throughout step holds next rest ↔ Throughout step meets next rest) :=
        fun meeting next stepped => ih (kept state event next start meeting stepped)
      constructor
      · rintro ⟨here, along⟩
        have meeting := (same state event start).mp here
        exact ⟨meeting, fun next stepped => (later meeting next stepped).mp (along next stepped)⟩
      · rintro ⟨meeting, along⟩
        exact ⟨(same state event start).mpr meeting,
          fun next stepped => (later meeting next stepped).mpr (along next stepped)⟩

/-- Steps that always have a result make runs that have one. -/
theorem run_succeeds {inv : S → Prop} {good : E → Prop}
    (steps : ∀ state event, inv state → good event →
      ∃ next, step state event = some next ∧ inv next)
    (start : inv state) (each : ∀ event ∈ events, good event) :
    ∃ final, run step state events = some final ∧ inv final := by
  induction events generalizing state with
  | nil => exact ⟨state, rfl, start⟩
  | cons event rest ih =>
      obtain ⟨here, there⟩ := List.forall_mem_cons.mp each
      obtain ⟨next, stepped, kept⟩ := steps state event start here
      obtain ⟨final, ran, holds⟩ := ih kept there
      exact ⟨final, by rw [run, stepped, Option.bind_some, ran], holds⟩

/-- Steps that have a result under a condition make runs that have one, as long as it is met. -/
theorem run_succeeds_along {inv : S → Prop}
    (steps : ∀ state event, inv state → holds state event →
      ∃ next, step state event = some next ∧ inv next)
    (start : inv state) (along : Throughout step holds state events) :
    ∃ final, run step state events = some final ∧ inv final := by
  induction events generalizing state with
  | nil => exact ⟨state, rfl, start⟩
  | cons event rest ih =>
      obtain ⟨here, later⟩ := along
      obtain ⟨next, stepped, kept⟩ := steps state event start here
      obtain ⟨final, ran, holds⟩ := ih kept (later next stepped)
      exact ⟨final, by rw [run, stepped, Option.bind_some, ran], holds⟩

/-- A run that follows another one step by step. -/
theorem run_follows {T : Type} {other : T → E → Option T} {rel : S → T → Prop}
    {meets : T → E → Prop} {abstract last : T}
    (steps : ∀ state abstract event after, rel state abstract → meets abstract event →
      other abstract event = some after → ∃ next, step state event = some next ∧ rel next after)
    (start : rel state abstract) (along : Throughout other meets abstract events)
    (ran : run other abstract events = some last) :
    ∃ final, run step state events = some final ∧ rel final last := by
  induction events generalizing state abstract with
  | nil =>
      cases ran
      exact ⟨state, rfl, start⟩
  | cons event rest ih =>
      obtain ⟨here, there⟩ := along
      obtain ⟨after, moved, later⟩ := Option.bind_eq_some_iff.mp ran
      obtain ⟨next, stepped, kept⟩ := steps state abstract event after start here moved
      obtain ⟨final, reached, holds⟩ := ih kept (there after moved) later
      exact ⟨final, by rw [run, stepped, Option.bind_some, reached], holds⟩

/-- A run that does what a function does, under a condition on the run itself. -/
theorem run_simulates {T : Type} {other : T → E → T} {rel : S → T → Prop} {abstract : T}
    (steps : ∀ state abstract event, rel state abstract → holds state event →
      ∃ next, step state event = some next ∧ rel next (other abstract event))
    (start : rel state abstract) (along : Throughout step holds state events) :
    ∃ final, run step state events = some final ∧ rel final (events.foldl other abstract) := by
  induction events generalizing state abstract with
  | nil => exact ⟨state, rfl, start⟩
  | cons event rest ih =>
      obtain ⟨next, stepped, kept⟩ := steps state abstract event start along.1
      obtain ⟨final, reached, related⟩ := ih kept (along.2 next stepped)
      exact ⟨final, by rw [run, stepped, Option.bind_some, reached], related⟩

/-- A run of a function. -/
theorem run_total (change : S → E → S) : run (fun state event => some (change state event)) state
    events = some (events.foldl change state) := by
  induction events generalizing state with
  | nil => rfl
  | cons event rest ih => exact ih

theorem run_append {first second : List E} :
    run step state (first ++ second) = (run step state first).bind fun middle =>
      run step middle second := by
  induction first generalizing state with
  | nil => rfl
  | cons event rest ih =>
      rw [List.cons_append, run, run]
      cases step state event with
      | none => rfl
      | some next => exact ih

/-- A run that breaks off does so at one of its events. -/
theorem run_breaks (broken : run step state events = none) :
    ∃ before event after middle, events = before ++ event :: after ∧
      run step state before = some middle ∧ step middle event = none := by
  induction events generalizing state with
  | nil => cases broken
  | cons first rest ih =>
      cases stepped : step state first with
      | none => exact ⟨[], first, rest, state, rfl, rfl, stepped⟩
      | some next =>
          rw [run, stepped, Option.bind_some] at broken
          obtain ⟨before, event, after, middle, rfl, ran, stops⟩ := ih broken
          exact ⟨first :: before, event, after, middle, rfl, by
            rw [run, stepped, Option.bind_some, ran], stops⟩

section Noting

variable {note : N → S → E → N}

/-- A note does not stand in the way of a run. -/
theorem run_noting (reached : run step state events = some final) (noted : N) :
    ∃ last, run (noting step note) (state, noted) events = some (final, last) := by
  induction events generalizing state noted with
  | nil =>
      cases reached
      exact ⟨noted, rfl⟩
  | cons event rest ih =>
      obtain ⟨next, stepped, later⟩ := Option.bind_eq_some_iff.mp reached
      obtain ⟨last, ran⟩ := ih later (note noted state event)
      exact ⟨last, by rw [run, noting, stepped, Option.map_some, Option.bind_some, ran]⟩

theorem run_of_noting {noted last : N}
    (reached : run (noting step note) (state, noted) events = some (final, last)) :
    run step state events = some final := by
  induction events generalizing state noted with
  | nil =>
      cases reached
      rfl
  | cons event rest ih =>
      obtain ⟨pair, stepped, later⟩ := Option.bind_eq_some_iff.mp reached
      obtain ⟨next, moved, rfl⟩ := Option.map_eq_some_iff.mp stepped
      rw [run, moved, Option.bind_some]
      exact ih later

end Noting

section Matched

variable {T F : Type} {other : T → F → Option T} {rel : S → List F → T → Prop} {past : List F}
  {abstract : T}

/-- A run each step of which is a run of another system. -/
theorem run_matched
    (steps : ∀ state past abstract event next, rel state past abstract → holds state event →
      step state event = some next → ∃ moves last, run other abstract moves = some last ∧
      rel next (past ++ moves) last)
    (start : rel state past abstract) (along : Throughout step holds state events)
    (reached : run step state events = some final) :
    ∃ moves last, run other abstract moves = some last ∧ rel final (past ++ moves) last := by
  induction events generalizing state past abstract with
  | nil =>
      cases reached
      exact ⟨[], abstract, rfl, by rwa [List.append_nil]⟩
  | cons event rest ih =>
      obtain ⟨next, stepped, later⟩ := Option.bind_eq_some_iff.mp reached
      obtain ⟨moves, middle, moved, kept⟩ :=
        steps state past abstract event next start along.1 stepped
      obtain ⟨more, last, ran, related⟩ := ih kept (along.2 next stepped) later
      refine ⟨moves ++ more, last, ?_, ?_⟩
      · rw [run_append, moved, Option.bind_some, ran]
      · rwa [← List.append_assoc]

end Matched

end Rules

end Freekick.Lib.Steps
