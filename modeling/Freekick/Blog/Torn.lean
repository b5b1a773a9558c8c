import Freekick.Blog.Rounds

/-!
# A log that ends anywhere

The server may die while it writes the log, and a read may return less than the rest of
the file.  In both cases the loader sees the first bytes of a log of complete commands.  It
runs commands from the front of the log, and in one that is read in full it runs
those that lie wholly in the file.
-/

namespace Freekick

open Lib.Resume

/-- The commands that lie wholly in the first `count` bytes of a log. -/
def wholeIn : Nat → List (List Bytes) → List (List Bytes)
  | _, [] => []
  | count, args :: rest =>
      if (enc args).length ≤ count then args :: wholeIn (count - (enc args).length) rest else []

theorem wholeIn_front (count : Nat) (commands : List (List Bytes)) :
    wholeIn count commands <+: commands := by
  induction commands generalizing count with
  | nil => exact List.nil_prefix
  | cons args rest ih =>
      rw [wholeIn]
      split
      · exact List.prefix_cons_inj args |>.mpr (ih _)
      · exact List.nil_prefix

/-! ## What the request machine reads -/

theorem run_enc {args : List Bytes} (admissible : Admissible args) (rest : Bytes) :
    requestMachine.run .idle (enc args ++ rest) = (requestMachine.run .idle rest).after [args] :=
  Machine.Emits.run _ (emits_enc admissible rest)

/-- In a part of an encoding nothing is read. -/
theorem run_take_enc {args : List Bytes} (admissible : Admissible args) {count : Nat}
    (short : count < (enc args).length) :
    (requestMachine.run .idle ((enc args).take count)).outputs = [] := by
  have whole := run_enc admissible []
  rw [requestMachine.run_wait (requestMachine.idle _), List.append_nil] at whole
  cases first : (requestMachine.run .idle ((enc args).take count)).outputs with
  | nil => rfl
  | cons other more =>
      obtain ⟨next, rest, emits⟩ := requestMachine.emits_of_run first
      obtain ⟨rfl, otherAdmissible, split⟩ := emits_completes emits
      -- the request that was read stands in front of the encoding, so it is the encoded one
      have bytes : enc args = enc other ++ (rest ++ (enc args).drop count) := by
        rw [← List.append_assoc, ← split, List.take_append_drop]
      have again := congrArg Stop.outputs (run_enc otherAdmissible (rest ++ (enc args).drop count))
      rw [← bytes, whole] at again
      obtain ⟨same, _⟩ := List.cons.inj again
      have lengths := congrArg List.length split
      rw [List.length_take, List.length_append, ← same] at lengths
      omega

theorem run_take_flatten {commands : List (List Bytes)}
    (admissible : ∀ args ∈ commands, Admissible args) (count : Nat) :
    (requestMachine.run .idle ((commands.map enc).flatten.take count)).outputs =
      wholeIn count commands := by
  induction commands generalizing count with
  | nil =>
      rw [List.map_nil, List.flatten_nil, List.take_nil,
        requestMachine.run_wait (requestMachine.idle _), wholeIn]
  | cons args rest ih =>
      obtain ⟨first, others⟩ := List.forall_mem_cons.mp admissible
      rw [List.map_cons, List.flatten_cons, List.take_append, wholeIn]
      split
      · next fits =>
          rw [List.take_of_length_le fits, run_enc first, Stop.after, ih others]
          rfl
      · next long =>
          rw [Nat.sub_eq_zero_of_le (Nat.le_of_not_le long), List.take_zero, List.append_nil,
            run_take_enc first (Nat.lt_of_not_le long)]

/-! ## What the loader runs -/

section Loop

variable {σ : Type} {proc : Proc σ}

/-- The loader ran commands from the front of the list and, in a file that is read in full,
all of them unless one of them stopped it. -/
def Ran (proc : Proc σ) (reads : List Nat) (state : σ) (commands : List (List Bytes))
    (result : LoadResult σ) : Prop :=
  ∃ handed, handed <+: commands ∧ result.state = (execAll proc state handed).1 ∧
    (result.ending = .waits → (execAll proc state handed).2.2 = .waits ∧
      (reads = [] → handed = commands))

theorem blogLoop_ran {fuel : Nat} {reads : List Nat} {conn : FkConnIn} {pos : LoadPos} {state : σ}
    {file tail : Bytes} {commands : List (List Bytes)} (enough : file.length < fuel)
    (loads : LoadsAt conn pos)
    (finishes : Finishes pos.request (pos.unread ++ (file ++ tail)) commands)
    (small : ∀ args ∈ commands, args.length ≤ fkVtrInitLen) :
    Ran proc reads state (requestMachine.run pos.request (pos.unread ++ file)).outputs
      (blogLoop proc fuel reads conn state file) := by
  induction fuel generalizing reads conn pos state file commands with
  | zero => exact absurd enough (Nat.not_lt_zero _)
  | succ fuel ih =>
      generalize known : readLen reads.head? pos.free file.length = rlen
      have short : rlen ≤ file.length := known ▸ readLen_le_left ..
      obtain ⟨fine, later, split, rest⟩ := finishes.read rlen
      rw [List.take_append_of_le_length short] at fine split rest
      rw [List.drop_append_of_le_length short] at rest
      have round := blogLoop_round proc fuel reads state loads (known ▸ fine)
      -- the rest of the file is read behind the bytes of this round
      have whole : (requestMachine.run pos.request (pos.unread ++ file)).outputs =
          (pos.stop (file.take rlen)).outputs ++
            (requestMachine.run (pos.next (file.take rlen)).request
              ((pos.next (file.take rlen)).unread ++ file.drop rlen)).outputs := by
        have joined : (requestMachine.run pos.request (pos.unread ++ file ++ tail)).failed =
            false := by
          rw [List.append_assoc]
          exact congrArg Stop.failed finishes
        have notFailed := (requestMachine.run_continue joined).1
        have split : pos.unread ++ file = (pos.unread ++ file.take rlen) ++ file.drop rlen := by
          rw [List.append_assoc, List.take_append_drop]
        rw [split] at notFailed ⊢
        rw [(requestMachine.run_continue notFailed).2]
        rfl
      have all : file.length ≤ rlen →
          (requestMachine.run pos.request (pos.unread ++ file)).outputs =
          (pos.stop (file.take rlen)).outputs := by
        intro long
        rw [List.take_of_length_le long]
        rfl
      generalize (requestMachine.run pos.request (pos.unread ++ file)).outputs =
        outputs at whole all ⊢
      generalize blogLoop proc (fuel + 1) reads conn state file = result at round
      cases round with
      | stuck full =>
          refine ⟨[], List.nil_prefix, rfl, fun waits => ?_⟩
          cases waits
      | stopped room read ran ends =>
          obtain rfl := known.symm.trans read.symm
          subst ran
          refine ⟨_, ⟨_, whole.symm⟩, rfl, fun waits => (ends waits).elim⟩
      | ended room read ran waits shorter few =>
          obtain rfl := known.symm.trans read.symm
          subst ran
          refine ⟨_, ⟨_, whole.symm⟩, rfl, fun _ => ⟨waits, fun none => (all ?_).symm⟩⟩
          rw [none, List.head?_nil, readLen_full] at known
          omega
      | goesOn room read ran waits full continued few many =>
          obtain rfl := known.symm.trans read.symm
          subst ran continued
          have less : (file.drop rlen).length < fuel := by
            rw [List.length_drop]
            omega
          have fewer : ∀ args ∈ later, args.length ≤ fkVtrInitLen := fun args member =>
            small args (split ▸ List.mem_append_right _ member)
          have next := @ih reads.tail _ _
            (execAll proc state (pos.stop (file.take rlen)).outputs).1 _ _ less
            (few (rest.expected_le fewer)).1 rest fewer
          obtain ⟨handed, front, stands, ends⟩ := next
          have joined := execAll_append proc state (pos.stop (file.take rlen)).outputs handed
          rw [if_pos waits] at joined
          refine ⟨(pos.stop (file.take rlen)).outputs ++ handed, ?_, ?_, fun ended => ?_⟩
          · rw [whole]
            exact (List.prefix_append_right_inj _).mpr front
          · rw [joined]
            exact stands
          · obtain ⟨last, complete⟩ := ends ended
            rw [joined, whole]
            refine ⟨last, fun none => congrArg (_ ++ ·) (complete ?_)⟩
            rw [none]
            rfl

/-- Of the first bytes of a log of short commands the loader runs commands from the front,
and all that are complete when the reads return all they can and no command stops it. -/
theorem fkBlogLoad_ran {state : σ} {maxWbuf : Nat} {reads : List Nat} {commands : List (List Bytes)}
    (admissible : ∀ args ∈ commands, Admissible args)
    (small : ∀ args ∈ commands, args.length ≤ fkVtrInitLen) (count : Nat) :
    Ran proc reads state (wholeIn count commands)
      (fkBlogLoad proc reads (fkConnCreate .fake maxWbuf).toFkConnIn state
        ((commands.map enc).flatten.take count)) := by
  have finishes : Finishes .idle (commands.map enc).flatten commands := finishes_enc admissible
  rw [← List.take_append_drop count (commands.map enc).flatten] at finishes
  have ran := @blogLoop_ran _ proc _ reads _ _ state _ _ _ (Nat.lt_succ_self _)
    (fkConnCreate_loads .fake maxWbuf) finishes small
  rw [← run_take_flatten admissible]
  exact ran

end Loop

end Freekick
