import Mathlib.Init

/-!
# Calls that return an error code

A call changes the state and gives a value, or it changes the state and gives up
with an error code, or it runs into an undefined operation.  Two sets of rules carry
most proofs: a property that every part of a call keeps is kept by the call, and a
call whose parts follow those of another one follows it.
-/

namespace Freekick.Lib.Call

variable {S T A B : Type}

inductive Outcome (S A : Type) where
  | ok (value : A) (state : S)
  | err (state : S)
  | fault

/-- The outcome of a part, in the state that it is a part of. -/
def Outcome.within (embed : S → T) : Outcome S A → Outcome T A
  | .ok value state => .ok value (embed state)
  | .err state => .err (embed state)
  | .fault => .fault

def Act (S A : Type) := S → Outcome S A

namespace Act

/-- Give up. -/
def fail : Act S A := fun state => .err state

def fault : Act S A := fun _ => .fault

def read (look : S → A) : Act S A := fun state => .ok (look state) state

def modify (change : S → S) : Act S Unit := fun state => .ok () (change state)

/-- The call when the condition holds, and nothing otherwise. -/
def onlyIf (condition : Prop) [Decidable condition] (act : Act S Unit) : Act S Unit := fun state =>
  if condition then act state else .ok () state

/-- Continue after a value; an error code is returned at once. -/
def andThen (act : Act S A) (next : A → Act S B) : Act S B := fun state =>
  match act state with
  | .ok value after => next value after
  | .err after => .err after
  | .fault => .fault

instance : Monad (Act S) where
  pure value := fun state => .ok value state
  bind := andThen

/-- One call for every item. -/
def forEach (body : A → Act S Unit) : List A → Act S Unit
  | [] => pure ()
  | item :: rest => do
      body item
      forEach body rest

theorem bind_ok {act : Act S A} {next : A → Act S B} {state after : S} {value : A}
    (first : act state = .ok value after) : (act >>= next) state = next value after := by
  change andThen act next state = _
  unfold andThen
  rw [first]

theorem bind_err {act : Act S A} {next : A → Act S B} {state after : S}
    (first : act state = .err after) : (act >>= next) state = .err after := by
  change andThen act next state = _
  unfold andThen
  rw [first]

theorem bind_fault {act : Act S A} {next : A → Act S B} {state : S} (first : act state = .fault) :
    (act >>= next) state = .fault := by
  change andThen act next state = _
  unfold andThen
  rw [first]

theorem read_bind (look : S → A) (next : A → Act S B) (state : S) :
    (read look >>= next) state = next (look state) state := rfl

theorem bind_unit (act : Act S Unit) : (act >>= fun _ => pure ()) = act := by
  funext state
  cases called : act state with
  | ok value after => exact bind_ok called
  | err after => exact bind_err called
  | fault => exact bind_fault called

theorem bind_assoc {C : Type} (first : Act S A) (second : A → Act S B) (third : B → Act S C)
    (state : S) :
    ((first >>= second) >>= third) state =
      (first >>= fun value => second value >>= third) state := by
  cases called : first state with
  | ok value after =>
      rw [bind_ok called]
      change andThen (andThen first second) third state = andThen (second value) third after
      unfold andThen
      rw [called]
  | err after => rw [bind_err called, bind_err (bind_err called)]
  | fault => rw [bind_fault called, bind_fault (bind_fault called)]

theorem forEach_append (body : A → Act S Unit) (first second : List A) (state : S) :
    forEach body (first ++ second) state =
      (forEach body first >>= fun _ => forEach body second) state := by
  induction first generalizing state with
  | nil => rfl
  | cons item rest ih =>
      change (body item >>= fun _ => forEach body (rest ++ second)) state =
        ((body item >>= fun _ => forEach body rest) >>= fun _ => forEach body second) state
      rw [bind_assoc]
      cases called : body item state with
      | ok value after => rw [bind_ok called, bind_ok called, ih]
      | err after => rw [bind_err called, bind_err called]
      | fault => rw [bind_fault called, bind_fault called]

theorem bind_eq_ok {act : Act S A} {next : A → Act S B} {state final : S} {result : B}
    (both : (act >>= next) state = .ok result final) :
    ∃ value after, act state = .ok value after ∧ next value after = .ok result final := by
  change andThen act next state = _ at both
  unfold andThen at both
  split at both
  · next value after first => exact ⟨value, after, first, both⟩
  · cases both
  · cases both

theorem bind_eq_err {act : Act S A} {next : A → Act S B} {state final : S}
    (both : (act >>= next) state = .err final) :
    act state = .err final ∨ ∃ value after, act state = .ok value after ∧
      next value after = .err final := by
  change andThen act next state = _ at both
  unfold andThen at both
  split at both
  · next value after first => exact .inr ⟨value, after, first, both⟩
  · next after first =>
      cases both
      exact .inl first
  · cases both

/-! ## Conditions on the states of a run -/

/-- When the call succeeds, its state has the property. -/
def Leaves (act : Act S A) (state : S) (holds : S → Prop) : Prop :=
  ∀ value after, act state = .ok value after → holds after

/-- The condition holds of every item in the state that its call starts in. -/
def Along (body : A → Act S Unit) (meets : S → A → Prop) : List A → S → Prop
  | [], _ => True
  | item :: rest, state => meets state item ∧ Leaves (body item) state (Along body meets rest)

instance Leaves.decidable (act : Act S A) (state : S) (holds : S → Prop) [DecidablePred holds] :
    Decidable (Leaves act state holds) :=
  match called : act state with
  | .ok value after => decidable_of_iff (holds after) ⟨fun kept other last ran => by
      rw [called] at ran
      cases ran
      exact kept, fun leaves => leaves value after called⟩
  | .err after => .isTrue fun other last ran => by
      rw [called] at ran
      cases ran
  | .fault => .isTrue fun other last ran => by
      rw [called] at ran
      cases ran

instance Along.decidable (body : A → Act S Unit) (meets : S → A → Prop)
    [∀ state item, Decidable (meets state item)] :
    ∀ items, DecidablePred (Along body meets items)
  | [], _ => .isTrue trivial
  | item :: rest, state =>
      have := Along.decidable body meets rest
      inferInstanceAs (Decidable (meets state item ∧ Leaves (body item) state _))

/-- Calls in a row that succeed under the condition and keep an invariant. -/
theorem forEach_along {body : A → Act S Unit} {meets : S → A → Prop} {inv : S → Prop}
    {items : List A} {state : S}
    (each : ∀ state item, inv state → meets state item →
      ∃ after, body item state = .ok () after ∧ inv after)
    (along : Along body meets items state) (holds : inv state) :
    ∃ final, forEach body items state = .ok () final ∧ inv final := by
  induction items generalizing state with
  | nil => exact ⟨state, rfl, holds⟩
  | cons item rest ih =>
      obtain ⟨middle, called, kept⟩ := each state item holds along.1
      obtain ⟨final, more, last⟩ := ih (along.2 () middle called) kept
      exact ⟨final, (bind_ok called).trans more, last⟩

/-! ## What every call keeps -/

/-- The property holds after the call, also when it gives up. -/
def Keeps (holds : S → Prop) (act : Act S A) : Prop :=
  ∀ state, holds state → (∀ value after, act state = .ok value after → holds after) ∧
    ∀ after, act state = .err after → holds after

namespace Keeps

variable {holds : S → Prop}

theorem pure (value : A) : Keeps holds (Pure.pure value : Act S A) := by
  intro state start
  refine ⟨?_, ?_⟩
  · intro result after ended
    cases ended
    exact start
  · intro after ended
    cases ended

theorem fault : Keeps holds (Act.fault : Act S A) := by
  intro state start
  refine ⟨?_, ?_⟩
  · intro result after ended
    cases ended
  · intro after ended
    cases ended

theorem read (look : S → A) : Keeps holds (Act.read look) := by
  intro state start
  refine ⟨?_, ?_⟩
  · intro result after ended
    cases ended
    exact start
  · intro after ended
    cases ended

theorem modify {change : S → S} (kept : ∀ state, holds state → holds (change state)) :
    Keeps holds (Act.modify change) := by
  intro state start
  refine ⟨?_, ?_⟩
  · intro result after ended
    cases ended
    exact kept state start
  · intro after ended
    cases ended

theorem bind {act : Act S A} {next : A → Act S B} (first : Keeps holds act)
    (later : ∀ value, Keeps holds (next value)) : Keeps holds (act >>= next) := by
  intro state start
  refine ⟨?_, ?_⟩
  · intro result final ended
    obtain ⟨value, after, head, tail⟩ := bind_eq_ok ended
    exact (later value after ((first state start).1 value after head)).1 result final tail
  · intro final ended
    rcases bind_eq_err ended with failed | ⟨value, after, head, tail⟩
    · exact (first state start).2 final failed
    · exact (later value after ((first state start).1 value after head)).2 final tail

/-- A value that is read is known to come from such a state. -/
theorem read_bind {look : S → A} {next : A → Act S B} {fact : A → Prop}
    (known : ∀ state, holds state → fact (look state))
    (later : ∀ value, fact value → Keeps holds (next value)) :
    Keeps holds (Act.read look >>= next) := by
  intro state start
  exact later (look state) (known state start) state start

theorem forEach {body : A → Act S Unit} (items : List A)
    (kept : ∀ item ∈ items, Keeps holds (body item)) :
    Keeps holds (Act.forEach body items) := by
  induction items with
  | nil => exact pure ()
  | cons item rest ih =>
      have later := ih fun other member => kept other (List.mem_cons_of_mem _ member)
      exact (kept item (List.mem_cons_self ..)).bind fun _ => later

end Keeps

/-! ## Calls that end -/

/-- The call does not fault, and what it leaves is as told, when it succeeds and when it gives
up. -/
def Ends (act : Act S A) (state : S) (good : A → S → Prop) (bad : S → Prop) : Prop :=
  match act state with
  | .ok value after => good value after
  | .err after => bad after
  | .fault => False

namespace Ends

variable {act : Act S A} {state : S} {good : A → S → Prop} {bad : S → Prop}

theorem of_ok {value : A} {after : S} (called : act state = .ok value after)
    (holds : good value after) :
    Ends act state good bad := by
  unfold Ends
  rw [called]
  exact holds

theorem imp {better : A → S → Prop} {worse : S → Prop} (ends : Ends act state good bad)
    (ok : ∀ value after, good value after → better value after)
    (err : ∀ after, bad after → worse after) :
    Ends act state better worse := by
  unfold Ends at ends ⊢
  split at ends
  · exact ok _ _ ends
  · exact err _ ends
  · exact ends

theorem bind {next : A → Act S B} {last : B → S → Prop} (first : Ends act state good bad)
    (later : ∀ value after, good value after → Ends (next value) after last bad) :
    Ends (act >>= next) state last bad := by
  unfold Ends at first
  split at first
  · next value after called =>
      unfold Ends
      rw [bind_ok called]
      exact later value after first
  · next after called =>
      unfold Ends
      rw [bind_err called]
      exact first
  · exact first.elim

/-- What comes after a call that succeeds. -/
theorem after {next : A → Act S B} {value : A} {middle : S} {last : B → S → Prop}
    (called : act state = .ok value middle) (later : Ends (next value) middle last bad) :
    Ends (act >>= next) state last bad := by
  unfold Ends
  rw [bind_ok called]
  exact later

/-- An invariant of every round. -/
theorem forEach {I : Type} {body : I → Act S Unit} {inv : S → Prop} (items : List I)
    (each : ∀ item ∈ items, ∀ state, inv state → Ends (body item) state (fun _ => inv) bad)
    (start : inv state) :
    Ends (Act.forEach body items) state (fun _ => inv) bad := by
  induction items generalizing state with
  | nil => exact start
  | cons item rest ih =>
      refine (each item (List.mem_cons_self ..) state start).bind fun _ after kept => ?_
      exact ih (fun other member => each other (List.mem_cons_of_mem _ member)) kept

end Ends

/-! ## Calls that follow each other -/

/-- When the first call succeeds and there is enough room, the second one succeeds from a
related state, with a value and a state that are related again, and uses at most `cost`
of its room. -/
def Follows (related : S → T → Prop) (room : T → Nat) (same : A → B → Prop) (cost : Nat)
    (left : Act S A) (right : Act T B) : Prop :=
  ∀ first second, related first second → cost ≤ room second → ∀ value after,
    left first = .ok value after →
      ∃ other final, right second = .ok other final ∧ same value other ∧ related after final ∧
        room second ≤ room final + cost

namespace Follows

variable {A' B' : Type} {related : S → T → Prop} {room : T → Nat} {same : A → B → Prop}
  {same' : A' → B' → Prop} {cost cost' : Nat}

theorem pure {value : A} {other : B} (equal : same value other) :
    Follows related room same 0 (Pure.pure value) (Pure.pure other) := by
  intro first second start _ result after ended
  cases ended
  exact ⟨other, second, rfl, equal, start, Nat.le_refl _⟩

theorem fault (right : Act T B) : Follows related room same cost Act.fault right := by
  intro first second start _ result after ended
  cases ended

theorem read {look : S → A} {gaze : T → B}
    (equal : ∀ first second, related first second → same (look first) (gaze second)) :
    Follows related room same 0 (Act.read look) (Act.read gaze) := by
  intro first second start _ result after ended
  cases ended
  exact ⟨gaze second, second, rfl, equal first second start, start, Nat.le_refl _⟩

theorem modify {change : S → S} {alter : T → T}
    (kept : ∀ first second, related first second → related (change first) (alter second))
    (free : ∀ second, room (alter second) = room second) :
    Follows related room (fun _ _ => True) 0 (Act.modify change) (Act.modify alter) := by
  intro first second start _ result after ended
  cases ended
  exact ⟨(), alter second, rfl, trivial, kept first second start, Nat.le_of_eq (free second).symm⟩

theorem weaken {left : Act S A} {right : Act T B}
    (follows : Follows related room same cost left right)
    (more : cost ≤ cost') : Follows related room same cost' left right := by
  intro first second start enough result after ended
  obtain ⟨other, final, called, equal, last, used⟩ :=
    follows first second start (Nat.le_trans more enough) result after ended
  exact ⟨other, final, called, equal, last, by omega⟩

theorem bind {left : Act S A} {right : Act T B} {next : A → Act S A'} {further : B → Act T B'}
    (heads : Follows related room same cost left right)
    (later : ∀ value other, same value other →
      Follows related room same' cost' (next value) (further other)) :
    Follows related room same' (cost + cost') (left >>= next) (right >>= further) := by
  intro first second start enough result after ended
  obtain ⟨value, middle, head, tail⟩ := bind_eq_ok ended
  obtain ⟨other, between, called, equal, meanwhile, used⟩ :=
    heads first second start (by omega) value middle head
  obtain ⟨answer, final, finished, agree, last, spent⟩ :=
    later value other equal middle between meanwhile (by omega) result after tail
  refine ⟨answer, final, ?_, agree, last, by omega⟩
  rw [bind_ok called]
  exact finished

/-- A first part that needs no room. -/
theorem bind_free {left : Act S A} {right : Act T B} {next : A → Act S A'} {further : B → Act T B'}
    (heads : Follows related room same 0 left right)
    (later : ∀ value other, same value other →
      Follows related room same' cost (next value) (further other)) :
    Follows related room same' cost (left >>= next) (right >>= further) := by
  have both := heads.bind later
  rwa [Nat.zero_add] at both

theorem forEach {I : Type} {body : I → Act S Unit} {other : I → Act T Unit} (items : List I)
    (each : ∀ item ∈ items, Follows related room (fun _ _ => True) 0 (body item) (other item)) :
    Follows related room (fun _ _ => True) 0 (Act.forEach body items)
      (Act.forEach other items) := by
  induction items with
  | nil => exact pure trivial
  | cons item rest ih =>
      have later := ih fun other member => each other (List.mem_cons_of_mem _ member)
      exact (each item (List.mem_cons_self ..)).bind_free fun _ _ _ => later

end Follows

/-! ## Calls side by side -/

/-- `count` calls in a row. -/
def times (act : Act S A) : Nat → Act S (List A)
  | 0 => pure []
  | count + 1 => do
      let first ← act
      let rest ← times act count
      pure (first :: rest)

/-- Both calls succeed with one value in related states, or both give up in states that part. -/
def Beside (related parted : S → T → Prop) (fact : A → Prop) (left : Act S A)
    (right : Act T A) : Prop :=
  ∀ first second, related first second →
    (∃ value after final, left first = .ok value after ∧ right second = .ok value final ∧
      fact value ∧ related after final) ∨ ∃ after final, left first = .err after ∧
      right second = .err final ∧ parted after final

namespace Beside

variable {related parted : S → T → Prop} {fact : A → Prop} {further : B → Prop} {left : Act S A}
  {right : Act T A}

theorem pure {value : A} (holds : fact value) :
    Beside related parted fact (Pure.pure value) (Pure.pure value) :=
  fun first second start => .inl ⟨value, first, second, rfl, rfl, holds, start⟩

theorem fail (apart : ∀ first second, related first second → parted first second) :
    Beside related parted fact Act.fail Act.fail :=
  fun first second start => .inr ⟨first, second, rfl, rfl, apart first second start⟩

theorem bind {next : A → Act S B} {later : A → Act T B}
    (heads : Beside related parted fact left right)
    (tails : ∀ value, fact value → Beside related parted further (next value) (later value)) :
    Beside related parted further (left >>= next) (right >>= later) := by
  intro first second start
  rcases heads first second start with ⟨value, after, final, head, other, holds, meanwhile⟩ |
      ⟨after, final, head, other, apart⟩
  · rw [bind_ok head, bind_ok other]
    exact tails value holds after final meanwhile
  · exact .inr ⟨after, final, bind_err head, bind_err other, apart⟩

theorem times (each : Beside related parted fact left right) (count : Nat) :
    Beside related parted (fun _ => True) (left.times count) (right.times count) := by
  induction count with
  | zero => exact pure trivial
  | succ count ih => exact each.bind fun first _ => ih.bind fun rest _ => pure trivial

end Beside

end Act

end Freekick.Lib.Call
