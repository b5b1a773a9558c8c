import Freekick.Store.Rsp

/-!
# `EVAL`: `fk_cmd_eval` of `fk_svr_lua.c`

The number of keys is narrowed to an `int`, three is added to it in an `int`, and only
then it is compared with the number of arguments.  A number that wraps on the way
passes the comparison.
-/

namespace Freekick

open Lib.Call Lib.Decimal

/-- What comes of a request before its script runs. -/
inductive EvalCourse where
  | refused (error : Bytes)
  | runs (code : Bytes) (keys argv : List Bytes)
  | fault
  deriving DecidableEq

/-- The loop that collects arguments and `fk_lua_push_paras`.  `lua_pushstring` copies up to
the first zero.  A negative count is too much for `calloc`, and a large one leaves the
arguments. -/
def pushParas (args : List Bytes) (first count : Int) : Option (List Bytes) :=
  if 0 ≤ count ∧ first + count ≤ args.length then
    some (((args.drop first.toNat).take count.toNat).map cString) else none

def evalCourse (args : List Bytes) : EvalCourse :=
  match args[1]?, args[2]? with
  | some code, some text =>
      if fkUtilIsNonminusSeq text = false then .refused fkRspTypeErr
      else
        let nkey := atoi text
        if (args.length : Int) < toInt32 (3 + nkey) then .refused fkRspArgcErr
        else
          match pushParas args 3 nkey, pushParas args (3 + nkey) (args.length - 1 - 2 - nkey) with
          | some keys, some argv => .runs (cString code) keys argv
          | _, _ => .fault
  | _, _ => .fault

/-- The return code of `fk_lua_run_script` is not looked at. -/
def fkCmdEval (fkLuaRunScript : Bytes → List Bytes → List Bytes → Work → Option Work) : Handler :=
  fun args work =>
  match evalCourse args with
  | .refused error => fkConnAddErrorRsp error work
  | .runs code keys argv =>
      match fkLuaRunScript code keys argv work with
      | some after => .ok () after
      | none => .fault
  | .fault => .fault

/-! ## Which requests are safe -/

/-- Whatever the interpreter does, the handler runs the script with these `KEYS` and `ARGV`,
and nothing else. -/
def EvalRuns (args keys argv : List Bytes) : Prop :=
  ∃ code, args[1]? = some code ∧ ∀ run work,
    fkCmdEval run args work = (run (cString code) keys argv work).elim .fault (.ok ())

/-- No script runs: the handler replies with an error, or fails with the reply. -/
def EvalAnswersErr (args : List Bytes) : Prop :=
  ∃ error ∈ [fkRspTypeErr, fkRspArgcErr], ∀ run work,
    fkCmdEval run args work = fkConnAddErrorRsp error work

/-- The number of keys lies within the arguments and both tables are exact, or it does not
and an error is answered. -/
def EvalRight (args : List Bytes) : Prop :=
  (∃ text, args[2]? = some text ∧ Canonical text ∧ value text + 3 ≤ args.length ∧
    EvalRuns args ((args.drop 3).take (value text)) (args.drop (3 + value text))) ∨
  ((∀ text, args[2]? = some text → Canonical text → args.length < value text + 3) ∧
    EvalAnswersErr args)

/-- The number of keys lies within the arguments, and none of these has a zero byte; or it is
refused, since it neither wraps nor is narrowed to a number that passes. -/
def EvalFits (args : List Bytes) : Prop :=
  ∀ text, args[2]? = some text → Canonical text →
    (value text + 3 ≤ args.length ∧ ∀ arg ∈ args.drop 3, 0 ∉ arg) ∨
      (value text < 2 ^ 63 ∧ args.length < value text % 2 ^ 32 + 3 ∧
        value text % 2 ^ 32 + 3 < 2 ^ 31)

/-! ## The handler follows its course -/

/-- A client with space for an error. -/
def evalWork : Work :=
  ⟨fkSvrInit 1 false (fun _ => 0) (fun _ => 0), ⟨.real, fkBufCreate 64 64, 0⟩⟩

theorem fkConnAddErrorRsp_evalWork {error : Bytes} (known : error ∈ [fkRspTypeErr, fkRspArgcErr]) :
    ∃ after, fkConnAddErrorRsp error evalWork = .ok () after := by
  rcases List.mem_cons.mp known with rfl | last
  · exact ⟨_, rfl⟩
  · rw [List.mem_singleton.mp last]
    exact ⟨_, rfl⟩

section Handler

variable {args keys argv : List Bytes} {code error text : Bytes}

theorem fkCmdEval_runs (course : evalCourse args = .runs code keys argv)
    (run : Bytes → List Bytes → List Bytes → Work → Option Work) (work : Work) :
    fkCmdEval run args work = (run code keys argv work).elim .fault (.ok ()) := by
  unfold fkCmdEval
  rw [course]
  dsimp only
  cases run code keys argv work <;> rfl

/-- A handler that leaves the arguments does neither. -/
theorem not_evalRight_of_fault (course : evalCourse args = .fault) : ¬ EvalRight args := by
  have crashes : ∀ run work, fkCmdEval run args work = .fault := by
    intro run work
    unfold fkCmdEval
    rw [course]
  rintro (⟨_, _, _, _, _, _, runs⟩ | ⟨_, error, known, answers⟩)
  · have ran := runs (fun _ _ _ work => some work) evalWork
    rw [crashes] at ran
    cases ran
  · have answered := answers (fun _ _ _ work => some work) evalWork
    obtain ⟨after, replied⟩ := fkConnAddErrorRsp_evalWork known
    rw [crashes, replied] at answered
    cases answered

theorem evalRight_of_refused (course : evalCourse args = .refused error)
    (known : error ∈ [fkRspTypeErr, fkRspArgcErr])
    (outside : ∀ text, args[2]? = some text → Canonical text → args.length < value text + 3) :
    EvalRight args := by
  refine .inr ⟨outside, error, known, fun run work => ?_⟩
  unfold fkCmdEval
  rw [course]

/-- An interpreter that looks at its tables tells what the handler passes. -/
theorem evalRight_of_runs (first : args[1]? = some code)
    (course : evalCourse args = .runs (cString code) keys argv) :
    EvalRight args ↔ ∃ text, args[2]? = some text ∧ Canonical text ∧ value text + 3 ≤ args.length ∧
      keys = (args.drop 3).take (value text) ∧ argv = args.drop (3 + value text) := by
  have ran := fkCmdEval_runs course
  constructor
  · rintro (⟨text, second, canonical, within, other, same, runs⟩ | ⟨_, error, known, answers⟩)
    · refine ⟨text, second, canonical, within, ?_⟩
      by_contra differ
      let looks : Bytes → List Bytes → List Bytes → Work → Option Work := fun _ keys' argv' work =>
        if keys' = (args.drop 3).take (value text) ∧
          argv' = args.drop (3 + value text) then some work
        else none
      have passed : looks (cString code) keys argv evalWork = none := if_neg differ
      have wanted : looks (cString other) ((args.drop 3).take (value text))
          (args.drop (3 + value text)) evalWork = some evalWork := if_pos ⟨rfl, rfl⟩
      have both := (ran looks evalWork).symm.trans (runs looks evalWork)
      rw [passed, wanted] at both
      cases both
    · have both := (ran (fun _ _ _ _ => none) evalWork).symm.trans (answers _ evalWork)
      obtain ⟨after, replied⟩ := fkConnAddErrorRsp_evalWork known
      rw [replied] at both
      cases both
  · rintro ⟨text, second, canonical, within, rfl, rfl⟩
    exact .inl ⟨text, second, canonical, within, code, first, ran⟩

end Handler

section Course

variable {args : List Bytes} {code text : Bytes}

theorem pushParas_within {first count : Nat} (within : first + count ≤ args.length) :
    pushParas args first count = some (((args.drop first).take count).map cString) := by
  rw [pushParas, if_pos ⟨by omega, by omega⟩, Int.toNat_natCast, Int.toNat_natCast]

/-- The number of keys, as the code reads it, decides. -/
theorem evalCourse_eq (first : args[1]? = some code) (second : args[2]? = some text)
    (canonical : Canonical text) :
    evalCourse args =
      if (args.length : Int) < toInt32 (3 + atoi text) then .refused fkRspArgcErr
      else if 0 ≤ atoi text ∧ 3 + atoi text ≤ args.length then
        .runs (cString code) (((args.drop 3).take (atoi text).toNat).map cString)
          ((args.drop (3 + (atoi text).toNat)).map cString)
      else .fault := by
  have accepted := (fkUtilIsNonminusSeq_iff text).mpr canonical
  unfold evalCourse
  rw [first, second]
  dsimp only
  rw [if_neg (by rw [accepted]; decide)]
  split
  · rfl
  · by_cases inside : 0 ≤ atoi text ∧ 3 + atoi text ≤ args.length
    · rw [if_pos inside]
      obtain ⟨count, same⟩ := Int.eq_ofNat_of_zero_le inside.1
      rw [same] at inside ⊢
      have whole : (args.drop (3 + count)).take (args.length - 3 - count) = args.drop
          (3 + count) := by
        apply List.take_of_length_le
        rw [List.length_drop]
        omega
      have left : (args.length : Int) - 1 - 2 - count = (args.length - 3 - count : Nat) := by omega
      have start : (3 : Int) + count = (3 + count : Nat) := by omega
      have keys : pushParas args 3 count = some (((args.drop 3).take count).map cString) :=
        @pushParas_within args 3 count (by omega)
      rw [left, start, keys, pushParas_within (by omega), whole, Int.toNat_natCast]
    · rw [if_neg inside, pushParas, if_neg inside]

/-- What becomes of the number of keys: it is narrowed unless it is too large for a `long`. -/
theorem atoi_canonical (canonical : Canonical text) :
    (2 ^ 63 ≤ value text ∧ atoi text = -1) ∨
      (value text < 2 ^ 63 ∧ value text % 2 ^ 32 < 2 ^ 31 ∧
        atoi text = (value text % 2 ^ 32 : Nat)) ∨
      (value text < 2 ^ 63 ∧ 2 ^ 31 ≤ value text % 2 ^ 32 ∧ atoi text < 0 ∧
        -(2 ^ 31) ≤ atoi text) := by
  rw [atoi_text canonical.nonempty canonical.digits, toInt32, Int.bmod]
  generalize value text = count
  split <;> omega

/-- The tables are exact only for the number itself and strings without a zero. -/
theorem evalRight_runs {count : Nat} (first : args[1]? = some code) (second : args[2]? = some text)
    (canonical : Canonical text)
    (course : evalCourse args = .runs (cString code) (((args.drop 3).take count).map cString)
      ((args.drop (3 + count)).map cString))
    (narrowed : value text + 3 ≤ args.length → count = value text) :
    EvalRight args ↔ value text + 3 ≤ args.length ∧ ∀ arg ∈ args.drop 3, 0 ∉ arg := by
  have parts : ((args.drop 3).take count).map cString = (args.drop 3).take count ∧
      (args.drop (3 + count)).map cString = args.drop (3 + count) ↔ ∀ arg ∈ args.drop 3,
        0 ∉ arg := by
    rw [map_cString_eq_iff, map_cString_eq_iff, ← List.drop_drop, ← List.forall_mem_append,
      List.take_append_drop]
  rw [evalRight_of_runs first course]
  constructor
  · rintro ⟨other, same, _, inside, keys, argv⟩
    obtain rfl := Option.some.inj (second.symm.trans same)
    rw [← narrowed inside] at keys argv
    exact ⟨inside, parts.mp ⟨keys, argv⟩⟩
  · rintro ⟨inside, clean⟩
    obtain ⟨keys, argv⟩ := parts.mpr clean
    refine ⟨text, second, canonical, inside, ?_, ?_⟩
    · rw [keys, narrowed inside]
    · rw [argv, narrowed inside]

/-- A number between the arguments and the wrap is refused; the others that do not lie within
the arguments lead outside, or pass as another number. -/
theorem evalRight_canonical (first : args[1]? = some code) (second : args[2]? = some text)
    (canonical : Canonical text) (few : args.length ≤ 128) :
    EvalRight args ↔ (value text + 3 ≤ args.length ∧ ∀ arg ∈ args.drop 3, 0 ∉ arg) ∨
      (value text < 2 ^ 63 ∧ args.length < value text % 2 ^ 32 + 3 ∧
        value text % 2 ^ 32 + 3 < 2 ^ 31) := by
  have course := evalCourse_eq first second canonical
  have many : 2 < args.length := (List.getElem?_eq_some_iff.mp second).1
  have plain : ∀ number : Int, -(2 ^ 31) ≤ number → number < 2 ^ 31 - 3 →
      toInt32 (3 + number) = 3 + number := by
    intro number low high
    exact Int.bmod_eq_of_le (by omega) (by omega)
  rcases atoi_canonical canonical with ⟨huge, nkey⟩ | ⟨long, small, nkey⟩ |
      ⟨long, large, negative, low⟩
  · -- Clamped to the largest `long`, which is narrowed to minus one.
    rw [nkey, plain _ (by omega) (by omega), if_neg (by omega), if_neg (by omega)] at course
    refine iff_of_false (not_evalRight_of_fault course) ?_
    omega
  · rw [nkey] at course
    by_cases wraps : value text % 2 ^ 32 + 3 < 2 ^ 31
    · rw [plain _ (by omega) (by omega)] at course
      by_cases exceeds : args.length < value text % 2 ^ 32 + 3
      · rw [if_pos (by omega)] at course
        refine iff_of_true (evalRight_of_refused course (by decide) ?_)
          (.inr ⟨long, exceeds, wraps⟩)
        intro other same _
        obtain rfl := Option.some.inj (second.symm.trans same)
        have most := Nat.mod_le (value text) (2 ^ 32)
        omega
      · rw [if_neg (by omega), if_pos ⟨by omega, by omega⟩, Int.toNat_natCast] at course
        rw [evalRight_runs first second canonical course (by omega)]
        constructor
        · exact .inl
        · rintro (fits | ⟨_, beyond, _⟩)
          · exact fits
          · exact absurd beyond exceeds
    · -- The sum with three is negative.
      have sum : toInt32 (3 + (value text % 2 ^ 32 : Nat)) < 0 := by
        rw [toInt32, Int.bmod]
        split <;> omega
      rw [if_neg (by omega), if_neg (by omega)] at course
      refine iff_of_false (not_evalRight_of_fault course) ?_
      omega
  · rw [plain _ low (by omega), if_neg (by omega), if_neg (by omega)] at course
    refine iff_of_false (not_evalRight_of_fault course) ?_
    omega

end Course

theorem fkCmdEval_right_iff {args : List Bytes} (least : 3 ≤ args.length)
    (most : args.length ≤ 128) :
    EvalRight args ↔ EvalFits args := by
  have first := List.getElem?_eq_getElem (show 1 < args.length by omega)
  have second := List.getElem?_eq_getElem (show 2 < args.length by omega)
  by_cases canonical : Canonical args[2]
  · rw [evalRight_canonical first second canonical most]
    unfold EvalFits
    rw [second]
    constructor
    · intro fits text same _
      obtain rfl := Option.some.inj same
      exact fits
    · intro fits
      exact fits _ rfl canonical
  · have refused : evalCourse args = .refused fkRspTypeErr := by
      unfold evalCourse
      rw [first, second]
      dsimp only
      rw [if_pos (Bool.eq_false_iff.mpr fun accepted =>
        canonical ((fkUtilIsNonminusSeq_iff _).mp accepted))]
    constructor
    · intro _ text same other
      obtain rfl := Option.some.inj (second.symm.trans same)
      exact absurd other canonical
    · intro _
      refine evalRight_of_refused refused (by decide) fun text same other => ?_
      obtain rfl := Option.some.inj (second.symm.trans same)
      exact absurd other canonical

/-- A request with one key and one more argument. -/
def oneKey : List Bytes := [ascii "EVAL", ascii "return 1", ascii "1", ascii "key", ascii "value"]

theorem fkCmdEval_right_oneKey : 3 ≤ oneKey.length ∧ oneKey.length ≤ 128 ∧
    (EvalRight oneKey ↔ EvalFits oneKey) :=
  ⟨by decide, by decide, fkCmdEval_right_iff (by decide) (by decide)⟩

/-- The largest `int` is no number of keys, but with three added it passes as one. -/
theorem fkCmdEval_wraps : ¬ EvalRight [ascii "EVAL", ascii "return 1", ascii "2147483647"] := by
  have outside : evalCourse [ascii "EVAL", ascii "return 1", ascii "2147483647"] = .fault := by
    decide +kernel
  exact not_evalRight_of_fault outside

end Freekick
