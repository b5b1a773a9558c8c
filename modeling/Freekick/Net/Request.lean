import Freekick.Lib.Resume
import Freekick.Net.HeaderLine

/-!
# The request machine

What the parser is for: a machine that reads the count line, then for every
argument its length line and its bytes, and emits the finished argument vector.
A state of the machine is what the connection remembers between two reads, and
`Shows` says that a connection remembers it.
-/

namespace Freekick

open Lib.Decimal Lib.Resume

/-- Between requests, or inside one of `expected` arguments with `args` complete and
possibly the length of the next one read. -/
inductive Request where
  | idle
  | busy (expected : Nat) (args : List Bytes) (pending : Option Nat)
      (room : args.length < expected)

namespace Request

def expected : Request → Nat
  | .idle => 0
  | .busy expected _ _ _ => expected

def args : Request → List Bytes
  | .idle => []
  | .busy _ args _ _ => args

theorem args_le (request : Request) : request.args.length ≤ request.expected := by
  cases request with
  | idle => exact Nat.le_refl 0
  | busy expected args pending room => exact Nat.le_of_lt room

/-- The value of `cur_arglen`. -/
def arglen : Request → Int
  | .idle => -1
  | .busy _ _ none _ => -1
  | .busy _ _ (some length) _ => length

end Request

/-- The request after one more argument: finished when it was the last one. -/
def argVerdict (expected : Nat) (args : List Bytes) (used : Nat) : Verdict Request (List Bytes) :=
  if room : args.length < expected then .move used (.busy expected args none room) none
  else .move used .idle (some args)

def requestStep (request : Request) (payload : Bytes) : Verdict Request (List Bytes) :=
  if payload = [] then .wait
  else
    match request with
    | .idle =>
        match argLine cntLine payload with
        | .again => .wait
        | .err => .fail
        | .number argc used =>
            if room : 0 < argc then .move used (.busy argc [] none room) none else .fail
    | .busy expected args none room =>
        match argLine lenLine payload with
        | .again => .wait
        | .err => .fail
        | .number argl used => .move used (.busy expected args (some argl) room) none
    | .busy expected args (some argLen) _ =>
        if argLen + 2 ≤ payload.length then
          if payload[argLen]? ≠ some carriageReturn ∨
            payload[argLen + 1]? ≠ some lineFeed then .fail
          else argVerdict expected (args ++ [payload.take argLen]) (argLen + 2)
        else .wait

theorem argVerdict_used {expected used : Nat} {args : List Bytes} {amount : Nat} {next : Request}
    {output : Option (List Bytes)}
    (verdict : argVerdict expected args used = .move amount next output) : used = amount := by
  unfold argVerdict at verdict
  split at verdict
  · exact (Verdict.move.inj verdict).1
  · exact (Verdict.move.inj verdict).1

theorem argVerdict_ne_fail (expected : Nat) (args : List Bytes) (used : Nat) :
    argVerdict expected args used ≠ .fail := by
  unfold argVerdict
  split <;> simp

/-- The moves of the machine, with everything their guards have checked. -/
theorem requestStep_move {request next : Request} {payload : Bytes} {used : Nat}
    {output : Option (List Bytes)}
    (verdict : requestStep request payload = .move used next output) :
    payload ≠ [] ∧
    ((∃ argc room, request = .idle ∧ argLine cntLine payload = .number argc used ∧
      next = .busy argc [] none room ∧ output = none) ∨
    (∃ expected args argl room, request = .busy expected args none room ∧
      argLine lenLine payload = .number argl used ∧
      next = .busy expected args (some argl) room ∧ output = none) ∨
    (∃ expected args argLen room, request = .busy expected args (some argLen) room ∧
      argLen + 2 ≤ payload.length ∧ payload[argLen]? = some carriageReturn ∧
      payload[argLen + 1]? = some lineFeed ∧ used = argLen + 2 ∧
      argVerdict expected (args ++ [payload.take argLen]) (argLen + 2) =
      .move used next output)) := by
  unfold requestStep at verdict
  split at verdict
  · cases verdict
  · next nonempty =>
      refine ⟨nonempty, ?_⟩
      split at verdict
      · left
        split at verdict
        · cases verdict
        · cases verdict
        · next argc amount read =>
            split at verdict
            · next room =>
                cases verdict
                exact ⟨argc, room, rfl, read, rfl, rfl⟩
            · cases verdict
      · right; left
        split at verdict
        · cases verdict
        · cases verdict
        · next argl amount read =>
            cases verdict
            exact ⟨_, _, argl, _, rfl, read, rfl, rfl⟩
      · right; right
        split at verdict
        · next enough =>
            split at verdict
            · cases verdict
            · next ends =>
                rw [not_or, not_not, not_not] at ends
                have same := argVerdict_used verdict
                exact ⟨_, _, _, _, rfl, enough, ends.1, ends.2, same.symm, same ▸ verdict⟩
        · cases verdict

/-- The failures of the machine. -/
theorem requestStep_fail {request : Request} {payload : Bytes}
    (verdict : requestStep request payload = .fail) :
    payload ≠ [] ∧
    ((request = .idle ∧ argLine cntLine payload = .err) ∨
    (∃ expected args room, request = .busy expected args none room ∧
      argLine lenLine payload = .err) ∨
    (∃ expected args argLen room, request = .busy expected args (some argLen) room ∧
      argLen + 2 ≤ payload.length ∧
      (payload[argLen]? ≠ some carriageReturn ∨ payload[argLen + 1]? ≠ some lineFeed))) := by
  unfold requestStep at verdict
  split at verdict
  · cases verdict
  · next nonempty =>
      refine ⟨nonempty, ?_⟩
      split at verdict
      · left
        split at verdict
        · cases verdict
        · next read => exact ⟨rfl, read⟩
        · next argc amount read =>
            split at verdict
            · cases verdict
            · next zero =>
                have bounds := (argLine_number_iff cntLine_lawful nonempty).mp read
                obtain ⟨_, _, _, least, _⟩ := bounds
                exact absurd least zero
      · right; left
        split at verdict
        · cases verdict
        · next read => exact ⟨_, _, _, rfl, read⟩
        · cases verdict
      · right; right
        split at verdict
        · next enough =>
            split at verdict
            · next ends => exact ⟨_, _, _, _, rfl, enough, ends⟩
            · exact (argVerdict_ne_fail _ _ _ verdict).elim
        · cases verdict

theorem requestStep_nil (request : Request) : requestStep request [] = .wait := by
  unfold requestStep
  rw [if_pos rfl]

theorem requestStep_move_append {request next : Request} {payload : Bytes} {used : Nat}
    {output : Option (List Bytes)} (more : Bytes)
    (verdict : requestStep request payload = .move used next output) :
    requestStep request (payload ++ more) = .move used next output := by
  obtain ⟨nonempty, moves⟩ := requestStep_move verdict
  have stillNonempty : payload ++ more ≠ [] := List.append_ne_nil_of_left_ne_nil nonempty more
  unfold requestStep
  rw [if_neg stillNonempty]
  rcases moves with ⟨argc, room, rfl, read, rfl, rfl⟩ |
      ⟨expected, args, argl, room, rfl, read, rfl, rfl⟩ |
    ⟨expected, args, argLen, room, rfl, enough, first, second, _, last⟩
  · simp only [argLine_number_append cntLine_lawful nonempty more read]
    exact dif_pos room
  · simp only [argLine_number_append lenLine_lawful nonempty more read]
  · have longer : argLen + 2 ≤ (payload ++ more).length := by
      rw [List.length_append]
      exact Nat.le_add_right_of_le enough
    simp only [if_pos longer]
    rw [List.getElem?_append_left (by omega), List.getElem?_append_left (by omega), first, second,
      if_neg (by simp), List.take_append_of_le_length (by omega)]
    exact last

theorem requestStep_fail_append {request : Request} {payload : Bytes} (more : Bytes)
    (verdict : requestStep request payload = .fail) :
    requestStep request (payload ++ more) = .fail := by
  obtain ⟨nonempty, fails⟩ := requestStep_fail verdict
  have stillNonempty : payload ++ more ≠ [] := List.append_ne_nil_of_left_ne_nil nonempty more
  unfold requestStep
  rw [if_neg stillNonempty]
  rcases fails with ⟨rfl, read⟩ | ⟨expected, args, room, rfl, read⟩ |
    ⟨expected, args, argLen, room, rfl, enough, ends⟩
  · simp only [argLine_err_append cntLine_lawful nonempty more read]
  · simp only [argLine_err_append lenLine_lawful nonempty more read]
  · have longer : argLen + 2 ≤ (payload ++ more).length := by
      rw [List.length_append]
      exact Nat.le_add_right_of_le enough
    simp only [if_pos longer]
    rw [List.getElem?_append_left (by omega), List.getElem?_append_left (by omega), if_pos ends]

theorem requestStep_used {request next : Request} {payload : Bytes} {used : Nat}
    {output : Option (List Bytes)}
    (verdict : requestStep request payload = .move used next output) :
    0 < used ∧ used ≤ payload.length := by
  obtain ⟨nonempty, moves⟩ := requestStep_move verdict
  rcases moves with ⟨argc, room, _, read, _, _⟩ | ⟨expected, args, argl, room, _, read, _, _⟩ |
    ⟨expected, args, argLen, room, _, enough, _, _, rfl, _⟩
  · exact ⟨argLine_used_pos cntLine_lawful nonempty read,
      argLine_used_le cntLine_lawful nonempty read⟩
  · exact ⟨argLine_used_pos lenLine_lawful nonempty read,
      argLine_used_le lenLine_lawful nonempty read⟩
  · exact ⟨Nat.succ_pos _, enough⟩

def requestMachine : Machine UInt8 Request (List Bytes) where
  step := requestStep
  idle := requestStep_nil
  used_pos := fun verdict => (requestStep_used verdict).1
  used_le := fun verdict => (requestStep_used verdict).2
  move_append := requestStep_move_append
  fail_append := requestStep_fail_append

/-- Between requests the count line decides. -/
theorem requestMachine_idle {payload : Bytes} (nonempty : payload ≠ []) :
    requestMachine.step .idle payload =
      match argLine cntLine payload with
      | .again => .wait
      | .err => .fail
      | .number argc used =>
          if room : 0 < argc then .move used (.busy argc [] none room) none else .fail := by
  change requestStep .idle payload = _
  unfold requestStep
  rw [if_neg nonempty]

/-! ## Connections show machine states -/

/-- The parser fields of a connection hold exactly the given machine state. -/
structure Shows (conn : FkConnIn) (request : Request) : Prop where
  parsed : conn.argParsed = request.expected
  cnt : conn.argCnt = request.args.length
  arglen : conn.curArglen = request.arglen
  done : conn.parseDone = false
  vtr : conn.argVtr = .filled fkVtrInitLen (max fkVtrInitLen request.expected) request.args

/-- The read buffer is not among these fields. -/
theorem Shows.withRbuf {conn : FkConnIn} {request : Request} (shows : Shows conn request)
    (rbuf : FkBuf) :
    Shows { conn with rbuf := rbuf } request :=
  ⟨shows.parsed, shows.cnt, shows.arglen, shows.done, shows.vtr⟩

theorem fkConnCreate_shows (type : FkConnType) (maxWbuf : Nat) :
    Shows (fkConnCreate type maxWbuf).toFkConnIn .idle := ⟨rfl, rfl, rfl, rfl, rfl⟩

/-- Freeing the arguments of a finished request leaves an idle connection. -/
theorem fkConnFreeArgs_shows {conn : FkConnIn} {items : List Bytes} {len : Nat}
    (cnt : conn.argCnt = items.length) (fits : items.length ≤ len) (grown : fkVtrInitLen ≤ len)
    (vtr : conn.argVtr = .filled fkVtrInitLen len items) : Shows (fkConnFreeArgs conn) .idle := by
  refine ⟨rfl, rfl, rfl, rfl, ?_⟩
  have cleared : ((conn.argVtr.array.mapIdx fun index slot =>
      if index < conn.argCnt then none else slot)) = List.replicate len none := by
    rw [vtr, cnt]
    apply List.ext_getElem?
    intro index
    rw [List.getElem?_mapIdx, FkVtr.filled]
    by_cases stored : index < items.length
    · rw [List.getElem?_append_left (by rwa [List.length_map]), List.getElem?_map,
        List.getElem?_eq_getElem stored, List.getElem?_replicate, if_pos (by omega),
        Option.map_some, Option.map_some, if_pos stored]
    · rw [List.getElem?_append_right (by rw [List.length_map]; omega), List.length_map,
        List.getElem?_replicate, List.getElem?_replicate]
      by_cases inside : index < len
      · rw [if_pos (by omega), if_pos inside, Option.map_some, if_neg stored]
      · rw [if_neg (by omega), if_neg inside, Option.map_none]
  have shrunk : (FkVtr.filled fkVtrInitLen len ([] : List Bytes)).fkVtrShrink =
      .filled fkVtrInitLen fkVtrInitLen [] :=
    FkVtr.fkVtrShrink_filled (Nat.zero_le _) (Nat.zero_le _) grown
  have emptied : ({ conn.argVtr with array := List.replicate len none } : FkVtr Bytes) =
      .filled fkVtrInitLen len [] := by
    rw [vtr]
    rfl
  change FkVtr.fkVtrShrink { conn.argVtr with array := _ } = _
  rw [cleared, emptied, shrunk]
  rfl

end Freekick
