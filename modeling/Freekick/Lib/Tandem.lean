import Freekick.Lib.Call
import Freekick.Lib.Steps

/-!
# Calls in tandem

Two calls on states of two kinds go in tandem when they end alike: both succeed or both give
up, in states that belong together.  Where the second call is undefined, the first one may stop
in a state that is lost.  The same holds of runs.
-/

namespace Freekick.Lib.Call

variable {S T A B C D I J : Type}

inductive Tandem (good : A → B → S → T → Prop) (bad : S → T → Prop) (lost : S → Prop) :
    Outcome S A → Outcome T B → Prop
  | ok {value : A} {other : B} {after : S} {final : T} (holds : good value other after final) :
      Tandem good bad lost (.ok value after) (.ok other final)
  | err {after : S} {final : T} (holds : bad after final) :
    Tandem good bad lost (.err after) (.err final)
  | lost {after : S} (gone : lost after) : Tandem good bad lost (.err after) .fault

namespace Tandem

variable {good : A → B → S → T → Prop} {bad : S → T → Prop} {lost : S → Prop} {left : Act S A}
  {right : Act T B} {first after : S} {second final : T} {value : A} {other : B}

theorem imp {better : A → B → S → T → Prop} {worse : S → T → Prop} {outcome : Outcome S A}
    {ending : Outcome T B} (tandem : Tandem good bad lost outcome ending)
    (ok : ∀ value other after final, good value other after final →
      better value other after final) (err : ∀ after final, bad after final → worse after final) :
    Tandem better worse lost outcome ending := by
  cases tandem with
  | ok holds => exact .ok (ok _ _ _ _ holds)
  | err holds => exact .err (err _ _ holds)
  | lost gone => exact .lost gone

theorem of_ok (called : left first = .ok value after) (also : right second = .ok other final)
    (holds : good value other after final) : Tandem good bad lost (left first) (right second) := by
  rw [called, also]
  exact .ok holds

/-- The first call does something on its own. -/
theorem left_first {next : A → Act S C} {better : C → B → S → T → Prop}
    (called : left first = .ok value after)
    (later : Tandem better bad lost (next value after) (right second)) :
    Tandem better bad lost ((left >>= next) first) (right second) := by
  rw [Act.bind_ok called]
  exact later

theorem right_first {next : B → Act T D} {better : A → D → S → T → Prop}
    (called : right second = .ok other final)
    (later : Tandem better bad lost (left first) (next other final)) :
    Tandem better bad lost (left first) ((right >>= next) second) := by
  rw [Act.bind_ok called]
  exact later

theorem bind {next : A → Act S C} {further : B → Act T D} {better : C → D → S → T → Prop}
    (heads : Tandem good bad lost (left first) (right second))
    (later : ∀ value other after final, good value other after final →
      Tandem better bad lost (next value after) (further other final)) :
    Tandem better bad lost ((left >>= next) first) ((right >>= further) second) := by
  cases called : left first with
  | ok value after =>
      cases also : right second with
      | ok other final =>
          rw [called, also] at heads
          cases heads with
          | ok holds =>
              rw [Act.bind_ok called, Act.bind_ok also]
              exact later _ _ _ _ holds
      | err final =>
          rw [called, also] at heads
          cases heads
      | fault =>
          rw [called, also] at heads
          cases heads
  | err after =>
      cases also : right second with
      | ok other final =>
          rw [called, also] at heads
          cases heads
      | err final =>
          rw [called, also] at heads
          cases heads with
          | err holds =>
              rw [Act.bind_err called, Act.bind_err also]
              exact .err holds
      | fault =>
          rw [called, also] at heads
          cases heads with
          | lost gone =>
              rw [Act.bind_err called, Act.bind_fault also]
              exact .lost gone
  | fault =>
      rw [called] at heads
      cases heads

/-- Rounds over two lists, item by item. -/
theorem forEach {body : I → Act S Unit} {round : J → Act T Unit} {inv : S → T → Prop}
    (items : List I) (image : I → J) (each : ∀ item ∈ items, ∀ state also, inv state also →
      Tandem (fun _ _ => inv) bad lost (body item state) (round (image item) also))
    (start : inv first second) :
    Tandem (fun _ _ => inv) bad lost (Act.forEach body items first)
      (Act.forEach round (items.map image) second) := by
  induction items generalizing first second with
  | nil => exact .ok start
  | cons item rest ih =>
      refine bind (each item (List.mem_cons_self ..) first second start) fun _ _ after final kept =>
        ?_
      exact ih (fun other member => each other (List.mem_cons_of_mem _ member)) kept

end Tandem

end Freekick.Lib.Call

namespace Freekick.Lib.Steps

variable {S T E : Type}

/-- A state beside that of another run; it is lost where the other run has stopped. -/
inductive Beside (rel : S → T → Prop) (lost : S → Prop) : S → Option T → Prop
  | here {state : S} {other : T} (holds : rel state other) : Beside rel lost state (some other)
  | gone {state : S} (is : lost state) : Beside rel lost state none

variable {step : S → E → Option S} {move : T → E → Option T} {rel : S → T → Prop} {lost : S → Prop}
  {good : E → Prop} {state : S} {other : T} {events : List E}

theorem run_lost (stays : ∀ state event, lost state → step state event = some state)
    (is : lost state) :
    run step state events = some state := by
  induction events with
  | nil => rfl
  | cons event rest ih =>
      rw [run, stays state event is]
      exact ih

/-- Steps that go beside each other make runs that do. -/
theorem run_beside (stays : ∀ state event, lost state → step state event = some state)
    (each : ∀ state other event, rel state other → good event →
      ∃ next, step state event = some next ∧ Beside rel lost next (move other event))
    (start : rel state other) (allowed : ∀ event ∈ events, good event) :
    ∃ final, run step state events = some final ∧
      Beside rel lost final (run move other events) := by
  induction events generalizing state other with
  | nil => exact ⟨state, rfl, .here start⟩
  | cons event rest ih =>
      obtain ⟨here, later⟩ := List.forall_mem_cons.mp allowed
      obtain ⟨next, stepped, beside⟩ := each state other event start here
      rw [run, run, stepped]
      generalize move other event = moved at beside ⊢
      cases beside with
      | here holds => exact ih holds later
      | gone is => exact ⟨next, run_lost stays is, .gone is⟩

end Freekick.Lib.Steps
