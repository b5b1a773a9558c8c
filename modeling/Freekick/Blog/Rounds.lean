import Freekick.Blog.Position

/-!
# Loading a complete log

A log of complete commands, read round by round.  Two questions are settled for every
log: when the loader keeps commands together that span several reads, and when it comes
to the last command of a log whose commands have few arguments.
-/

namespace Freekick

open Lib.Resume

variable {σ : Type}

/-! ## Logs that are complete -/

/-- The bytes complete the pending request and further ones, and nothing is left over. -/
def Finishes (request : Request) (input : Bytes) (commands : List (List Bytes)) : Prop :=
  requestMachine.run request input = ⟨.idle, [], commands, false⟩

theorem finishes_enc {commands : List (List Bytes)}
    (admissible : ∀ args ∈ commands, Admissible args) :
    Finishes .idle (commands.map enc).flatten commands := by
  induction commands with
  | nil => exact requestMachine.run_wait (requestMachine.idle _)
  | cons args rest ih =>
      have first := emits_enc (admissible args (List.mem_cons_self ..)) (rest.map enc).flatten
      have later := ih fun other member => admissible other (List.mem_cons_of_mem _ member)
      unfold Finishes at later ⊢
      rw [List.map_cons, List.flatten_cons, Machine.Emits.run _ first, later]
      rfl

/-- Only a finished request leads back to the idle state. -/
theorem Finishes.idle {request : Request} {input : Bytes} (finishes : Finishes request input []) :
    request = .idle ∧ input = [] := by
  unfold Finishes at finishes
  induction request, input using requestMachine.run_induction with
  | wait request input verdict =>
      rw [requestMachine.run_wait verdict] at finishes
      obtain ⟨states, unread, _, _⟩ := Stop.mk.inj finishes
      exact ⟨states, unread⟩
  | fail request input verdict =>
      rw [requestMachine.run_fail verdict] at finishes
      cases congrArg Stop.failed finishes
  | move request input used next output verdict ih =>
      rw [requestMachine.run_move verdict] at finishes
      cases output with
      | some value => cases congrArg Stop.outputs finishes
      | none =>
          obtain ⟨rfl, _⟩ := ih finishes
          obtain ⟨_, moves⟩ := requestStep_move verdict
          rcases moves with ⟨_, _, _, _, busy, _⟩ | ⟨_, _, _, _, _, _, busy, _⟩ |
            ⟨_, _, _, _, _, _, _, _, _, last⟩
          · cases busy
          · cases busy
          · unfold argVerdict at last
            split at last
            · cases last
            · cases last

/-- The pending request has as many arguments as its command. -/
theorem Finishes.expected_le {request : Request} {input : Bytes} {commands : List (List Bytes)}
    {bound : Nat} (finishes : Finishes request input commands)
    (small : ∀ args ∈ commands, args.length ≤ bound) :
    request.expected ≤ bound := by
  cases commands with
  | nil =>
      rw [finishes.idle.1]
      exact Nat.zero_le _
  | cons args rest =>
      have first : (requestMachine.run request input).outputs = args :: rest :=
        congrArg Stop.outputs finishes
      obtain ⟨next, left, emits⟩ := requestMachine.emits_of_run first
      have completes := (emits_completes emits).2
      have few := small args (List.mem_cons_self ..)
      cases request with
      | idle => exact Nat.zero_le _
      | busy expected args pending room =>
          cases pending with
          | none =>
              obtain ⟨_, _, count, _⟩ := completes
              exact count ▸ few
          | some argLen =>
              obtain ⟨_, _, _, count, _⟩ := completes
              exact count ▸ few

/-- A read takes some of the commands and leaves the others. -/
theorem Finishes.read {pos : LoadPos} {file : Bytes} {commands : List (List Bytes)}
    (finishes : Finishes pos.request (pos.unread ++ file) commands) (rlen : Nat) :
    (pos.stop (file.take rlen)).failed = false ∧
      ∃ later, commands = (pos.stop (file.take rlen)).outputs ++ later ∧
        Finishes (pos.next (file.take rlen)).request
          ((pos.next (file.take rlen)).unread ++ file.drop rlen) later := by
  have split : pos.unread ++ file = (pos.unread ++ file.take rlen) ++ file.drop rlen := by
    rw [List.append_assoc, List.take_append_drop]
  unfold Finishes at finishes
  rw [split] at finishes
  have fine := congrArg Stop.failed finishes
  obtain ⟨notFailed, joined⟩ := requestMachine.run_continue fine
  rw [joined] at finishes
  refine ⟨notFailed, (requestMachine.run (pos.next (file.take rlen)).request
    ((pos.next (file.take rlen)).unread ++ file.drop rlen)).outputs, ?_, ?_⟩
  · exact (congrArg Stop.outputs finishes).symm
  · obtain ⟨states, unread, _, failed⟩ := Stop.mk.inj finishes
    unfold Finishes
    exact Stop.ext states unread rfl failed

/-- Behind the end of the file no command is left. -/
theorem Finishes.nothing_left {pos : LoadPos} {bytes : Bytes} {later : List (List Bytes)}
    (fine : (pos.stop bytes).failed = false)
    (finishes : Finishes (pos.next bytes).request ((pos.next bytes).unread ++ []) later) :
    later = [] := by
  have waits := requestMachine.run_wait (requestMachine.step_of_run fine)
  rw [List.append_nil] at finishes
  exact congrArg Stop.outputs (finishes.symm.trans waits)

/-- When no command is left there is free space. -/
theorem Finishes.free_ne_zero {pos : LoadPos} {file : Bytes}
    (tidy : pos.window.Tidy pos.unread.length)
    (finishes : Finishes pos.request (pos.unread ++ file) []) : pos.free ≠ 0 := by
  have empty := (List.append_eq_nil_iff.mp finishes.idle.2).1
  have free : pos.free = (pos.window.ready pos.unread.length).free := rfl
  rw [empty] at tidy free
  rw [free]
  exact tidy.free_ne_zero

/-! ## When the loader keeps the commands together -/

/-- In every round that is reached: the read finds free space; and unless a command stops
the loader, the read returns all it can, and a command that is pending then has no more
arguments than the vector has slots from the start. -/
def RoundsFit (proc : Proc σ) : Nat → List Nat → LoadPos → σ → Bytes → Prop
  | 0, _, _, _, _ => True
  | fuel + 1, reads, pos, state, file =>
      let rlen := readLen reads.head? pos.free file.length
      let exec := execAll proc state (pos.stop (file.take rlen)).outputs
      pos.free ≠ 0 ∧ (exec.2.2 = .waits →
        rlen = min pos.free file.length ∧
        (pos.next (file.take rlen)).request.expected ≤ fkVtrInitLen ∧
        (rlen = pos.free →
          RoundsFit proc fuel reads.tail (pos.next (file.take rlen)) exec.1 (file.drop rlen)))

/-- No write outside the vector, no argument lost to a shrink, and the given commands. -/
structure LoadSound (result : LoadResult σ) (handed : List (List (Option Bytes))) : Prop where
  inside : result.ending ≠ .faults
  kept : ∀ shrink ∈ result.shrinks, shrink.2 = shrink.1
  handed : result.handed = handed

theorem blogLoop_sound_iff {proc : Proc σ} {fuel : Nat} {reads : List Nat} {conn : FkConnIn}
    {pos : LoadPos} {state : σ} {file : Bytes} {commands : List (List Bytes)}
    (enough : file.length < fuel) (loads : LoadsAt conn pos)
    (finishes : Finishes pos.request (pos.unread ++ file) commands) :
    LoadSound (blogLoop proc fuel reads conn state file)
        ((execAll proc state commands).2.1.map (List.map some)) ↔
      RoundsFit proc fuel reads pos state file := by
  induction fuel generalizing reads conn pos state file commands with
  | zero => exact absurd enough (Nat.not_lt_zero _)
  | succ fuel ih =>
      rw [RoundsFit]
      generalize known : readLen reads.head? pos.free file.length = rlen
      have short : rlen ≤ file.length := known ▸ readLen_le_left ..
      obtain ⟨fine, later, split, rest⟩ := finishes.read rlen
      have round := blogLoop_round proc fuel reads state loads (known ▸ fine)
      have joined := execAll_append proc state (pos.stop (file.take rlen)).outputs later
      rw [← split] at joined
      generalize blogLoop proc (fuel + 1) reads conn state file = result at round
      cases round with
      | stuck full =>
          refine ⟨fun sound => ?_, fun fits => (fits.1 full).elim⟩
          have none := execAll_eq_nil (List.map_eq_nil_iff.mp sound.handed.symm)
          rw [none] at finishes
          exact (finishes.free_ne_zero loads.tidy full).elim
      | stopped room read ran ends =>
          obtain rfl := known.symm.trans read.symm
          subst ran
          rw [if_neg ends] at joined
          rw [joined]
          refine ⟨fun _ => ⟨room, fun waits => (ends waits).elim⟩, fun _ => ⟨?_, ?_, rfl⟩⟩
          · exact execAll_ne_faults _ _ _
          · intro shrink member
            cases member
      | ended room read ran waits shorter few =>
          obtain rfl := known.symm.trans read.symm
          subst ran
          rw [if_pos waits] at joined
          rw [joined, List.map_append]
          constructor
          · intro sound
            have nothing := List.append_right_eq_self.mp sound.handed.symm
            have none := execAll_eq_nil (List.map_eq_nil_iff.mp nothing)
            rw [none] at rest
            obtain ⟨idle, ended⟩ := rest.idle
            have all := List.drop_eq_nil_iff.mp (List.append_eq_nil_iff.mp ended).2
            refine ⟨room, fun _ => ⟨by omega, ?_, fun whole => absurd whole (Nat.ne_of_lt shorter)⟩⟩
            rw [idle]
            exact Nat.zero_le _
          · rintro ⟨_, fits⟩
            obtain ⟨all, bound, _⟩ := fits waits
            have ended := List.drop_eq_nil_iff.mpr (show file.length ≤ rlen by omega)
            rw [ended] at rest
            have none := Finishes.nothing_left fine rest
            refine ⟨LoopEnd.noConfusion, ?_, ?_⟩
            · intro shrink member
              rw [List.mem_singleton.mp member]
              exact few bound
            · rw [none]
              exact (List.append_nil _).symm
      | goesOn room read ran waits whole continued few many =>
          obtain rfl := known.symm.trans read.symm
          subst ran continued
          rw [if_pos waits] at joined
          rw [joined, List.map_append]
          have shorter : (file.drop rlen).length < fuel := by
            rw [List.length_drop]
            omega
          constructor
          · intro sound
            have same := List.append_cancel_left sound.handed
            have bound : (pos.next (file.take rlen)).request.expected ≤ fkVtrInitLen := by
              by_contra more
              rw [(many (Nat.lt_of_not_le more)).blogLoop] at same
              have none := execAll_eq_nil (List.map_eq_nil_iff.mp same.symm)
              rw [none] at rest
              rw [rest.idle.1] at more
              exact more (Nat.zero_le _)
            refine ⟨room, fun _ => ⟨by omega, bound, fun _ => ?_⟩⟩
            refine (ih shorter (few bound).1 rest).mp ⟨sound.inside, ?_, same⟩
            exact fun shrink member => sound.kept shrink (List.mem_cons_of_mem _ member)
          · rintro ⟨_, fits⟩
            obtain ⟨_, bound, next⟩ := fits waits
            have sound := (ih shorter (few bound).1 rest).mpr (next whole)
            refine ⟨sound.inside, ?_, congrArg (_ ++ ·) sound.handed⟩
            intro shrink member
            rcases List.mem_cons.mp member with rfl | inside
            · exact (few bound).2
            · exact sound.kept shrink inside

instance decidableRoundsFit (proc : Proc σ) (fuel : Nat) (reads : List Nat)
    (pos : LoadPos) (state : σ) (file : Bytes) :
    Decidable (RoundsFit proc fuel reads pos state file) :=
  match fuel with
  | 0 => isTrue trivial
  | fuel + 1 =>
      have (next : LoadPos) (after : σ) (rest : Bytes) :
          Decidable (RoundsFit proc fuel reads.tail next after rest) :=
        decidableRoundsFit proc fuel reads.tail next after rest
      inferInstanceAs (Decidable (pos.free ≠ 0 ∧
        ((execAll proc state (pos.stop
          (file.take (readLen reads.head? pos.free file.length))).outputs).2.2 =
            .waits →
          readLen reads.head? pos.free file.length = min pos.free file.length ∧
          (pos.next (file.take (readLen reads.head? pos.free file.length))).request.expected ≤
          fkVtrInitLen ∧ (readLen reads.head? pos.free file.length = pos.free →
            RoundsFit proc fuel reads.tail
              (pos.next (file.take (readLen reads.head? pos.free file.length)))
              (execAll proc state
                (pos.stop (file.take (readLen reads.head? pos.free file.length))).outputs).1
              (file.drop (readLen reads.head? pos.free file.length))))))

/-- The condition on a log that is loaded by a new connection. -/
def LoadFits (proc : Proc σ) (reads : List Nat) (state : σ) (log : Bytes) : Prop :=
  RoundsFit proc (log.length + 1) reads .start state log

instance (proc : Proc σ) (reads : List Nat) (state : σ) (log : Bytes) :
    Decidable (LoadFits proc reads state log) :=
  decidableRoundsFit proc (log.length + 1) reads .start state log

/-- However the reads cut a log of complete commands: all writes stay inside the argument
vector, no stored argument is lost and the commands are those of the log in one piece,
exactly when every round meets the condition. -/
theorem fkBlogLoad_sound_iff (proc : Proc σ) (state : σ) (maxWbuf : Nat) (reads : List Nat)
    (commands : List (List Bytes)) (admissible : ∀ args ∈ commands, Admissible args) :
    let log := (commands.map enc).flatten
    let fresh := (fkConnCreate .fake maxWbuf).toFkConnIn
    let result := fkBlogLoad proc reads fresh state log
    let whole := reqLoop proc log.length (fresh.receive log) state
    (result.ending ≠ .faults ∧ (∀ shrink ∈ result.shrinks, shrink.2 = shrink.1) ∧
      result.handed = whole.handed) ↔ LoadFits proc reads state log := by
  intro log fresh result whole
  have finishes : Finishes .idle log commands := finishes_enc admissible
  have payload : (fresh.receive log).rbuf.payload = log := fresh.payload_receive log
  have handed : whole.handed = (execAll proc state commands).2.1.map (List.map some) := by
    have enough : (fresh.receive log).rbuf.fkBufPayloadLen ≤ log.length := by
      rw [← FkBuf.length_payload, payload]
    have spec := reqLoop_spec proc state
      (FkConnIn.receive_shows (fkConnCreate_shows .fake maxWbuf) log) enough
    have outputs := spec.handed
    rw [payload, finishes] at outputs
    exact outputs
  have sound := @blogLoop_sound_iff σ proc _ reads _ _ state log commands
    (Nat.lt_succ_self log.length) (fkConnCreate_loads .fake maxWbuf) finishes
  rw [handed]
  refine Iff.trans ?_ sound
  exact ⟨fun parts => ⟨parts.1, parts.2.1, parts.2.2⟩,
    fun sound => ⟨sound.inside, sound.kept, sound.handed⟩⟩

/-- Twenty bytes that take two reads. -/
theorem fkBlogLoad_sound_two_reads :
    let commands : List (List Bytes) := [[[68, 69, 76], [107]]]
    let log := (commands.map enc).flatten
    let fresh := (fkConnCreate .fake 16).toFkConnIn
    let result := fkBlogLoad handOn [] fresh () log
    (∀ args ∈ commands, Admissible args) ∧ LoadFits handOn [] () log ∧ result.ending ≠ .faults ∧
      result.shrinks.length = 2 ∧ result.handed = commands.map (List.map some) := by
  intro commands log fresh result
  have admissible : ∀ args ∈ commands, Admissible args := by
    intro args member
    rw [List.mem_singleton.mp member]
    refine ⟨by decide, by decide, ?_⟩
    decide
  have fits : LoadFits handOn [] () log := by decide
  have sound := (fkBlogLoad_sound_iff handOn () 16 [] commands admissible).mpr fits
  exact ⟨admissible, fits, sound.1, by decide, by decide⟩

/-- Five arguments: the first read ends inside the second one, the shrink takes the fifth
slot away, and the fifth argument is written behind the vector. -/
theorem fkBlogLoad_writes_outside :
    let command : List Bytes := [[77, 83, 69, 84], [97], [49], [98], [50]]
    let log := enc command
    let fresh := (fkConnCreate .fake 4096).toFkConnIn
    let result := fkBlogLoad handOn [] fresh () log
    let whole := reqLoop handOn log.length (fresh.receive log) ()
    command.length ≤ fkArgCntHighwat ∧ result.ending = .faults ∧ result.handed = [] ∧
      whole.handed = [command.map some] := by
  decide +kernel

/-! ## Commands that never outgrow the vector -/

/-- Every read of a file that is read in full finds free space. -/
def readsFit : Nat → LoadPos → Bytes → Bool
  | 0, _, _ => true
  | fuel + 1, pos, file =>
      pos.free != 0 &&
        (file.length < pos.free || readsFit fuel (pos.next (file.take pos.free))
          (file.drop pos.free))

theorem readLen_full (free left : Nat) : readLen none free left = min free left := by
  unfold readLen
  rw [Option.getD_none]
  omega

theorem readsFit_nil {fuel : Nat} {pos : LoadPos} (room : pos.free ≠ 0) : readsFit fuel pos
    [] = true := by
  cases fuel with
  | zero => rfl
  | succ fuel =>
      rw [readsFit, Bool.and_eq_true, Bool.or_eq_true, bne_iff_ne, decide_eq_true_iff]
      exact ⟨room, .inl (Nat.pos_of_ne_zero room)⟩

/-- Argument vectors as slots are told apart by their arguments. -/
theorem slots_injective : Function.Injective (List.map (List.map (some : Bytes → Option Bytes))) :=
  List.map_injective_iff.mpr (List.map_injective_iff.mpr (Option.some_injective _))

/-- All commands are handed on exactly when every read finds free space and the commands
run to the last. -/
theorem blogLoop_whole_iff {proc : Proc σ} {fuel : Nat} {conn : FkConnIn}
    {pos : LoadPos} {state : σ} {file : Bytes} {commands : List (List Bytes)}
    (enough : file.length < fuel) (loads : LoadsAt conn pos)
    (finishes : Finishes pos.request (pos.unread ++ file) commands)
    (small : ∀ args ∈ commands, args.length ≤ fkVtrInitLen) :
    (blogLoop proc fuel [] conn state file).handed = commands.map (List.map some) ↔
      readsFit fuel pos file = true ∧ (execAll proc state commands).2.1 = commands := by
  induction fuel generalizing conn pos state file commands with
  | zero => exact absurd enough (Nat.not_lt_zero _)
  | succ fuel ih =>
      generalize known : readLen none pos.free file.length = rlen
      have full : rlen = min pos.free file.length := known.symm.trans (readLen_full _ _)
      obtain ⟨fine, later, split, rest⟩ := finishes.read rlen
      have round := blogLoop_round proc fuel [] state loads (known ▸ fine)
      have joined := execAll_append proc state (pos.stop (file.take rlen)).outputs later
      rw [← split] at joined
      rw [readsFit, Bool.and_eq_true, Bool.or_eq_true, bne_iff_ne, decide_eq_true_iff]
      generalize blogLoop proc (fuel + 1) [] conn state file = result at round
      cases round with
      | stuck none =>
          refine ⟨fun same => ?_, fun fits => (fits.1.1 none).elim⟩
          rw [List.map_eq_nil_iff.mp same.symm] at finishes
          exact (finishes.free_ne_zero loads.tidy none).elim
      | stopped room read ran ends =>
          obtain rfl := known.symm.trans read.symm
          subst ran
          rw [if_neg ends] at joined
          rw [joined]
          refine ⟨fun same => ?_, fun fits => congrArg _ fits.2⟩
          have all := slots_injective same
          refine ⟨⟨room, ?_⟩, all⟩
          by_cases short : file.length < pos.free
          · exact .inl short
          · -- the commands of this round were the last ones
            have handed := execAll_length_le proc state (pos.stop (file.take rlen)).outputs
            have count := congrArg List.length split
            have ran := congrArg List.length all
            rw [List.length_append] at count
            have last : later = [] := List.eq_nil_of_length_eq_zero (by omega)
            have whole : rlen = pos.free := full.trans (Nat.min_eq_left (Nat.le_of_not_lt short))
            rw [last, whole] at rest
            have ended := (List.append_eq_nil_iff.mp rest.idle.2).2
            have free := rest.free_ne_zero (LoadPos.next_tidy loads.tidy.least _)
            rw [ended]
            exact .inr (readsFit_nil free)
      | ended room read ran waits shorter few =>
          obtain rfl := known.symm.trans read.symm
          subst ran
          have all := List.drop_eq_nil_iff.mpr (show file.length ≤ rlen by omega)
          rw [all] at rest
          have last := Finishes.nothing_left fine rest
          rw [last, List.append_nil] at split
          have handed := execAll_handed waits
          rw [if_pos waits, last] at joined
          refine ⟨fun _ => ⟨⟨room, .inl (by omega)⟩, ?_⟩, fun _ => ?_⟩
          · rw [joined]
            exact (List.append_nil _).trans (handed.trans split.symm)
          · rw [split]
            exact congrArg _ handed
      | goesOn room read ran waits whole continued few many =>
          obtain rfl := known.symm.trans read.symm
          subst ran continued
          have shorter : (file.drop rlen).length < fuel := by
            rw [List.length_drop]
            omega
          have fewer : ∀ args ∈ later, args.length ≤ fkVtrInitLen := fun args member =>
            small args (split ▸ List.mem_append_right _ member)
          have bound := rest.expected_le fewer
          have next := @ih _ _ (execAll proc state (pos.stop (file.take rlen)).outputs).1 _ _
            shorter (few bound).1 rest fewer
          rw [if_pos waits, execAll_handed waits] at joined
          rw [joined, execAll_handed waits, split, List.map_append, ← whole]
          constructor
          · intro same
            obtain ⟨reads, ran⟩ := next.mp (List.append_cancel_left same)
            exact ⟨⟨whole ▸ room, .inr reads⟩, congrArg (_ ++ ·) ran⟩
          · rintro ⟨⟨_, reads⟩, ran⟩
            rcases reads with short | reads
            · omega
            · exact congrArg (_ ++ ·) (next.mpr ⟨reads, List.append_cancel_left ran⟩)

end Freekick
