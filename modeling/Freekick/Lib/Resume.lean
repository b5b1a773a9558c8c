import Mathlib.Data.List.Basic

/-!
# Resumable stream machines

A machine reads a stream that arrives in pieces.  On the bytes at hand it waits,
fails, or moves: it consumes some of them, changes state and possibly emits an
output.  When waiting is the only verdict that more input may revise, the
outcome of a stream does not depend on the pieces it arrives in.
-/

namespace Freekick.Lib.Resume

variable {B S O : Type}

/-- What a machine decides about the input it has. -/
inductive Verdict (S O : Type) where
  | wait
  | fail
  | move (used : Nat) (next : S) (output : Option O)
  deriving Repr, DecidableEq

/-- A machine whose moves and failures are final: more input never revises them. -/
structure Machine (B S O : Type) where
  step : S → List B → Verdict S O
  idle : ∀ state, step state [] = .wait
  used_pos : ∀ {state input used next output},
    step state input = .move used next output → 0 < used
  used_le : ∀ {state input used next output},
    step state input = .move used next output → used ≤ input.length
  move_append : ∀ {state input used next output} (more : List B),
    step state input = .move used next output →
      step state (input ++ more) = .move used next output
  fail_append : ∀ {state input} (more : List B),
    step state input = .fail → step state (input ++ more) = .fail

/-- Where a run stops: the state, the input left over, the outputs and whether it failed. -/
@[ext]
structure Stop (B S O : Type) where
  state : S
  unread : List B
  outputs : List O
  failed : Bool
  deriving Repr, DecidableEq

namespace Stop

/-- Put the outputs of an earlier part of the stream in front. -/
def after (stop : Stop B S O) (earlier : List O) : Stop B S O :=
  { stop with outputs := earlier ++ stop.outputs }

/-- Equal outcomes; the state and the leftover input count only without a failure. -/
structure Same (left right : Stop B S O) : Prop where
  outputs : left.outputs = right.outputs
  failed : left.failed = right.failed
  settled : left.failed = false → left.state = right.state ∧ left.unread = right.unread

theorem Same.refl (stop : Stop B S O) : Same stop stop :=
  ⟨rfl, rfl, fun _ => ⟨rfl, rfl⟩⟩

theorem Same.symm {left right : Stop B S O} (same : Same left right) : Same right left := by
  refine ⟨same.outputs.symm, same.failed.symm, ?_⟩
  intro fine
  obtain ⟨states, unread⟩ := same.settled (same.failed.trans fine)
  exact ⟨states.symm, unread.symm⟩

theorem Same.trans {first second third : Stop B S O}
    (left : Same first second) (right : Same second third) : Same first third := by
  refine ⟨left.outputs.trans right.outputs, left.failed.trans right.failed, ?_⟩
  intro fine
  obtain ⟨firstState, firstUnread⟩ := left.settled fine
  obtain ⟨secondState, secondUnread⟩ := right.settled (left.failed.symm.trans fine)
  exact ⟨firstState.trans secondState, firstUnread.trans secondUnread⟩

/-- Without a failure nothing is left out of the comparison. -/
theorem Same.eq {left right : Stop B S O} (same : Same left right) (fine : left.failed = false) :
    left = right := by
  obtain ⟨states, unread⟩ := same.settled fine
  exact Stop.ext states unread same.outputs same.failed

@[simp]
theorem after_failed (stop : Stop B S O) (earlier : List O) :
    (stop.after earlier).failed = stop.failed := rfl

@[simp]
theorem after_nil (stop : Stop B S O) : stop.after [] = stop := rfl

end Stop

namespace Machine

variable (machine : Machine B S O)

/-- Take verdicts until the machine waits or fails, at most `fuel` of them. -/
def runFuel : Nat → S → List B → Stop B S O
  | 0, state, input => ⟨state, input, [], false⟩
  | fuel + 1, state, input =>
      match machine.step state input with
      | .wait => ⟨state, input, [], false⟩
      | .fail => ⟨state, input, [], true⟩
      | .move used next output =>
          (runFuel fuel next (input.drop used)).after output.toList

/-- Run on all of the input; every move consumes some of it. -/
def run (state : S) (input : List B) : Stop B S O :=
  machine.runFuel input.length state input

theorem runFuel_enough {first second : Nat} {state : S} {input : List B}
    (firstEnough : input.length ≤ first) (secondEnough : input.length ≤ second) :
    machine.runFuel first state input = machine.runFuel second state input := by
  induction first generalizing second state input with
  | zero =>
      have empty := List.eq_nil_of_length_eq_zero (Nat.le_zero.mp firstEnough)
      subst empty
      cases second with
      | zero => rfl
      | succ second => rw [runFuel, runFuel, machine.idle]
  | succ first ih =>
      cases second with
      | zero =>
          have empty := List.eq_nil_of_length_eq_zero (Nat.le_zero.mp secondEnough)
          subst empty
          rw [runFuel, runFuel, machine.idle]
      | succ second =>
          simp only [runFuel]
          cases verdict : machine.step state input with
          | wait => rfl
          | fail => rfl
          | move used next output =>
              have positive := machine.used_pos verdict
              dsimp only
              have firstFits : (input.drop used).length ≤ first := by
                rw [List.length_drop]
                omega
              have secondFits : (input.drop used).length ≤ second := by
                rw [List.length_drop]
                omega
              rw [ih firstFits secondFits]

theorem run_wait {state : S} {input : List B} (verdict : machine.step state input = .wait) :
    machine.run state input = ⟨state, input, [], false⟩ := by
  unfold run
  cases input with
  | nil => rfl
  | cons head tail => rw [List.length_cons, runFuel, verdict]

theorem run_fail {state : S} {input : List B} (verdict : machine.step state input = .fail) :
    machine.run state input = ⟨state, input, [], true⟩ := by
  unfold run
  cases input with
  | nil => rw [machine.idle] at verdict; cases verdict
  | cons head tail => rw [List.length_cons, runFuel, verdict]

theorem run_move {state next : S} {input : List B} {used : Nat} {output : Option O}
    (verdict : machine.step state input = .move used next output) :
    machine.run state input =
      (machine.run next (input.drop used)).after output.toList := by
  have positive := machine.used_pos verdict
  have bounded := machine.used_le verdict
  have inputPos : 0 < input.length := Nat.lt_of_lt_of_le positive bounded
  have sizes : input.length = (input.length - 1) + 1 := (Nat.sub_add_cancel inputPos).symm
  rw [run, sizes, runFuel, verdict]
  dsimp only
  have fits : (input.drop used).length ≤ input.length - 1 := by
    rw [List.length_drop]
    omega
  rw [run, machine.runFuel_enough fits (Nat.le_refl _)]

/-- Induction along the moves of a run. -/
theorem run_induction {motive : S → List B → Prop}
    (wait : ∀ state input, machine.step state input = .wait → motive state input)
    (fail : ∀ state input, machine.step state input = .fail → motive state input)
    (move : ∀ state input used next output,
      machine.step state input = .move used next output →
        motive next (input.drop used) → motive state input)
    (state : S) (input : List B) : motive state input := by
  induction sizeEq : input.length using Nat.strongRecOn generalizing state input with
  | ind size ih =>
      cases verdict : machine.step state input with
      | wait => exact wait state input verdict
      | fail => exact fail state input verdict
      | move used next output =>
          have positive := machine.used_pos verdict
          have bounded := machine.used_le verdict
          have smaller : (input.drop used).length < size := by
            rw [List.length_drop]
            omega
          exact move state input used next output verdict (ih _ smaller next _ rfl)

/-- A run that has not failed stops where the machine waits. -/
theorem step_of_run {state : S} {input : List B} (fine : (machine.run state input).failed = false) :
    machine.step (machine.run state input).state (machine.run state input).unread = .wait := by
  induction state, input using machine.run_induction with
  | wait state input verdict => rwa [machine.run_wait verdict]
  | fail state input verdict =>
      rw [machine.run_fail verdict] at fine
      cases fine
  | move state input used next output verdict ih =>
      rw [machine.run_move verdict] at fine ⊢
      exact ih fine

/-- The part of the stream read first can be run first. -/
theorem run_append (state : S) (input more : List B) :
    (machine.run state (input ++ more)).Same
      (if (machine.run state input).failed then machine.run state input
      else (machine.run (machine.run state input).state
        ((machine.run state input).unread ++ more)).after (machine.run state input).outputs) := by
  induction state, input using machine.run_induction with
  | wait state input verdict =>
      rw [machine.run_wait verdict]
      exact Stop.Same.refl _
  | fail state input verdict =>
      rw [machine.run_fail verdict, machine.run_fail (machine.fail_append more verdict)]
      refine ⟨rfl, rfl, ?_⟩
      intro fine
      cases fine
  | move state input used next output verdict ih =>
      rw [machine.run_move verdict, machine.run_move (machine.move_append more verdict),
        List.drop_append_of_le_length (machine.used_le verdict)]
      cases failed : (machine.run next (input.drop used)).failed with
      | true =>
          rw [if_pos failed] at ih
          rw [if_pos ((Stop.after_failed _ _).trans failed)]
          exact ⟨congrArg (output.toList ++ ·) ih.outputs, ih.failed, ih.settled⟩
      | false =>
          rw [if_neg (by rw [failed]; exact Bool.false_ne_true)] at ih
          rw [if_neg (by rw [Stop.after_failed, failed]; exact Bool.false_ne_true)]
          refine ⟨?_, ih.failed, ih.settled⟩
          have outputs := congrArg (output.toList ++ ·) ih.outputs
          simpa only [Stop.after, List.append_assoc] using outputs

/-- Without a failure the parts of a stream can be run one after the other. -/
theorem run_continue {state : S} {input more : List B}
    (fine : (machine.run state (input ++ more)).failed = false) :
    (machine.run state input).failed = false ∧
      machine.run state (input ++ more) =
        (machine.run (machine.run state input).state
          ((machine.run state input).unread ++ more)).after (machine.run state input).outputs := by
  have joined := machine.run_append state input more
  cases failed : (machine.run state input).failed with
  | true =>
      rw [if_pos failed] at joined
      rw [joined.failed, failed] at fine
      cases fine
  | false =>
      rw [if_neg (by rw [failed]; exact Bool.false_ne_true)] at joined
      exact ⟨rfl, joined.eq fine⟩

/-- The machine makes silent moves and then one with an output. -/
inductive Emits : S → List B → O → S → List B → Prop where
  | last {state next : S} {input : List B} {used : Nat} {output : O}
      (verdict : machine.step state input = .move used next (some output)) :
      Emits state input output next (input.drop used)
  | silent {state middle next : S} {input rest : List B} {used : Nat} {output : O}
      (verdict : machine.step state input = .move used middle none)
      (later : Emits middle (input.drop used) output next rest) :
      Emits state input output next rest

/-- A run goes on behind its first output. -/
theorem Emits.run {state next : S} {input rest : List B} {output : O}
    (emits : machine.Emits state input output next rest) :
    machine.run state input = (machine.run next rest).after [output] := by
  induction emits with
  | last verdict => exact machine.run_move verdict
  | silent verdict later ih =>
      rw [machine.run_move verdict, ih]
      rfl

/-- The first output of a run was emitted. -/
theorem emits_of_run {state : S} {input : List B} {output : O} {outputs : List O}
    (first : (machine.run state input).outputs = output :: outputs) :
    ∃ next rest, machine.Emits state input output next rest := by
  induction state, input using machine.run_induction with
  | wait state input verdict =>
      rw [machine.run_wait verdict] at first
      cases first
  | fail state input verdict =>
      rw [machine.run_fail verdict] at first
      cases first
  | move state input used next emitted verdict ih =>
      rw [machine.run_move verdict] at first
      cases emitted with
      | none =>
          obtain ⟨last, rest, later⟩ := ih first
          exact ⟨last, rest, .silent verdict later⟩
      | some value =>
          have same : value = output := (List.cons.inj first).1
          subst same
          exact ⟨next, _, .last verdict⟩

/-- Output leaves less input behind. -/
theorem Emits.length_lt {state next : S} {input rest : List B} {output : O}
    (emits : machine.Emits state input output next rest) : rest.length < input.length := by
  induction emits with
  | last verdict =>
      have positive := machine.used_pos verdict
      have bounded := machine.used_le verdict
      rw [List.length_drop]
      omega
  | silent verdict later ih =>
      rw [List.length_drop] at ih
      exact Nat.lt_of_lt_of_le ih (Nat.sub_le _ _)

/-- Receive the stream piece by piece, stopping at a failure. -/
def feed : Stop B S O → List (List B) → Stop B S O
  | stop, [] => stop
  | stop, piece :: rest =>
      if stop.failed then stop
      else feed ((machine.run stop.state (stop.unread ++ piece)).after stop.outputs) rest

theorem feed_failed {stop : Stop B S O} (failed : stop.failed = true) (pieces : List (List B)) :
    machine.feed stop pieces = stop := by
  cases pieces with
  | nil => rfl
  | cons piece rest => rw [feed, if_pos failed]

/-- Feeding pieces from a waiting state is running on their concatenation. -/
theorem feed_same {stop : Stop B S O} (fine : stop.failed = false)
    (waiting : machine.step stop.state stop.unread = .wait) (pieces : List (List B)) :
    (machine.feed stop pieces).Same
      ((machine.run stop.state (stop.unread ++ pieces.flatten)).after stop.outputs) := by
  induction pieces generalizing stop with
  | nil =>
      rw [feed, List.flatten_nil, List.append_nil, machine.run_wait waiting]
      refine ⟨?_, fine, fun _ => ⟨rfl, rfl⟩⟩
      simp only [Stop.after, List.append_nil]
  | cons piece rest ih =>
      rw [feed, if_neg (by rw [fine]; exact Bool.false_ne_true), List.flatten_cons,
        ← List.append_assoc]
      have joined := machine.run_append stop.state (stop.unread ++ piece) rest.flatten
      cases failed : (machine.run stop.state (stop.unread ++ piece)).failed with
      | true =>
          rw [if_pos failed] at joined
          rw [machine.feed_failed ((Stop.after_failed _ _).trans failed)]
          exact ⟨congrArg (stop.outputs ++ ·) joined.outputs.symm, joined.failed.symm,
            fun fine => joined.symm.settled fine⟩
      | false =>
          rw [if_neg (by rw [failed]; exact Bool.false_ne_true)] at joined
          have afterFailed : ((machine.run stop.state (stop.unread ++ piece)).after
              stop.outputs).failed = false := failed
          have fed := ih afterFailed (machine.step_of_run failed)
          refine fed.trans ?_
          refine ⟨?_, joined.failed.symm, fun fine => joined.symm.settled fine⟩
          have outputs := congrArg (stop.outputs ++ ·) joined.outputs.symm
          simpa only [Stop.after, List.append_assoc] using outputs

/-- Two ways of cutting one stream into pieces have the same outcome. -/
theorem feed_cut_irrelevant (state : S) {first second : List (List B)}
    (stream : first.flatten = second.flatten) :
    (machine.feed ⟨state, [], [], false⟩ first).Same
      (machine.feed ⟨state, [], [], false⟩ second) := by
  let fresh : Stop B S O := ⟨state, [], [], false⟩
  have fine : fresh.failed = false := rfl
  have whole := machine.feed_same fine (machine.idle state)
  have left := whole first
  rw [stream] at left
  exact left.trans (whole second).symm

end Machine

end Freekick.Lib.Resume
