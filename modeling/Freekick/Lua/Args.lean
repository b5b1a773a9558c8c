import Freekick.Lib.Steps
import Freekick.Lua.Eval
import Freekick.Store.OneReply

/-!
# The arguments of `redis.pcall`: `fk_lua_pcall` and `fk_lua_conn_proc_cmd`

The arguments of a call are converted one by one into the connection that all calls
share.  A call that meets something else than a string gives up and leaves what it has
converted there, where the next call goes on.
-/

namespace Freekick

open Lib.Steps

/-! ## The code -/

/-- The loop of `fk_lua_pcall`, and whether it comes to its end.  An argument is `none` when
`lua_isstring` fails for it; the whole is `none` after a write outside of the vector. -/
def convertArgs : List (Option Bytes) → FkConnIn → Option (Bool × FkConnIn)
  | [], conn => some (true, { conn with parseDone := true })
  | none :: _, conn => some (false, conn)
  | some arg :: rest, conn => do
      let argVtr ← conn.argVtr.fkVtrSet conn.argCnt (some arg)
      convertArgs rest { conn with argVtr := argVtr, argCnt := conn.argCnt + 1 }

def pcallArgs (args : List (Option Bytes)) (conn : FkConnIn) : Option (Bool × FkConnIn) :=
  convertArgs args
    { conn with argParsed := args.length, argVtr := conn.argVtr.fkVtrStretch args.length }

/-- What `fk_lua_conn_proc_cmd` comes to: it returns, or the script of an `EVAL` starts. -/
inductive ProcCourse where
  | returns
  | runs
  | fault
  deriving DecidableEq

/-- Only `EVAL` looks beyond the arguments, and no handler changes them. -/
def procCourse (fkCmdEval : Handler) : List Bytes → ProcCourse
  | [] => .fault
  | first :: rest =>
      let name := fkStr2upper first
      match fkProtoSearch fkCmdEval name with
      | none => .returns
      | some pto =>
          if (pto.argCnt < 0 ∧ ((first :: rest).length : Int) < -pto.argCnt) ∨
              (0 < pto.argCnt ∧ pto.argCnt ≠ (first :: rest).length) then .returns
          else if pto.type = .script then
            match evalCourse (name :: rest) with
            | .refused _ => .returns
            | .runs _ _ _ => .runs
            | .fault => .fault
          else .returns

/-- `fk_str_2upper` changes the first argument in place. -/
def upperFirst (conn : FkConnIn) : FkConnIn :=
  { conn with
    argVtr := { conn.argVtr with array := conn.argVtr.array.modifyHead (Option.map fkStr2upper) } }

/-! ## The machine -/

/-- The connection of all calls, and how many calls of `EVAL` on it have not returned. -/
structure LuaConn where
  conn : FkConnIn
  depth : Nat

/-- A script calls `redis.pcall`, or the script of the innermost `EVAL` on the connection ends. -/
inductive LuaEvent where
  | pcall (args : List (Option Bytes))
  | scriptEnds
  deriving DecidableEq

namespace LuaConn

def create (maxWbuf : Nat) : LuaConn := ⟨(fkConnCreate .fake maxWbuf).toFkConnIn, 0⟩

/-- `fk_lua_conn_proc_cmd` on the arguments there are.  A null one among them is a crash. -/
def procCmd (fkCmdEval : Handler) (state : LuaConn) : Option LuaConn :=
  match state.conn.argSlots.mapM id with
  | none => none
  | some command =>
      match procCourse fkCmdEval command with
      | .returns => some { state with conn := fkConnFreeArgs state.conn }
      | .runs => some ⟨upperFirst state.conn, state.depth + 1⟩
      | .fault => none

def step (fkCmdEval : Handler) (state : LuaConn) : LuaEvent → Option LuaConn
  | .pcall args =>
      match pcallArgs args state.conn with
      | none => none
      | some (false, conn) => some { state with conn := conn }
      | some (true, conn) => procCmd fkCmdEval { state with conn := conn }
  | .scriptEnds =>
      if state.depth = 0 then none else some ⟨fkConnFreeArgs state.conn, state.depth - 1⟩

/-- Nothing is left of a call. -/
structure Emptied (conn : FkConnIn) : Prop where
  argCnt : conn.argCnt = 0
  argParsed : conn.argParsed = 0
  slots : ∀ slot ∈ conn.argVtr.array, slot = none

/-- No slot outside of the vector is set, the command consists of the arguments of the call,
and a call that returns leaves nothing. -/
def CallRight (fkCmdEval : Handler) (state : LuaConn) : LuaEvent → Prop
  | .pcall args =>
      (∃ complete conn, pcallArgs args state.conn = some (complete, conn) ∧
        (complete = true → conn.argSlots = args)) ∧
      ∀ next, state.step fkCmdEval (.pcall args) = some next → next.depth ≤ state.depth →
        Emptied next.conn
  | .scriptEnds => ∀ next, state.step fkCmdEval .scriptEnds = some next → Emptied next.conn

/-- All arguments are strings, and no script that a call runs makes the call. -/
def Plain (state : LuaConn) : LuaEvent → Prop
  | .pcall args => state.depth = 0 ∧ none ∉ args
  | .scriptEnds => True

instance (state : LuaConn) (event : LuaEvent) : Decidable (state.Plain event) :=
  match event with
  | .pcall _ => inferInstanceAs (Decidable (_ ∧ _))
  | .scriptEnds => inferInstanceAs (Decidable True)

end LuaConn

/-! ## The loop -/

section Convert

variable {args : List (Option Bytes)} {conn after : FkConnIn} {complete : Bool}

/-- Whatever the connection holds, arguments are added behind it. -/
theorem convertArgs_counts (converted : convertArgs args conn = some (complete, after))
    (inside : conn.argCnt ≤ conn.argVtr.array.length) :
    after.argParsed = conn.argParsed ∧ conn.argCnt ≤ after.argCnt ∧
      after.argCnt ≤ after.argVtr.array.length ∧
      (complete = true → after.argCnt = conn.argCnt + args.length ∧ none ∉ args) := by
  induction args generalizing conn with
  | nil =>
      cases converted
      exact ⟨rfl, Nat.le_refl _, inside, fun _ => ⟨rfl, List.not_mem_nil⟩⟩
  | cons arg rest ih =>
      cases arg with
      | none =>
          cases converted
          exact ⟨rfl, Nat.le_refl _, inside, fun impossible => by cases impossible⟩
      | some arg =>
          obtain ⟨argVtr, stored, later⟩ := Option.bind_eq_some_iff.mp converted
          unfold FkVtr.fkVtrSet at stored
          split at stored
          · next room =>
              cases stored
              obtain ⟨parsed, more, within, whole⟩ := ih later (by rw [List.length_set]; exact room)
              have grown : conn.argCnt + 1 ≤ after.argCnt := more
              refine ⟨parsed, by omega, within, fun done => ?_⟩
              obtain ⟨count, strings⟩ := whole done
              have counted : after.argCnt = conn.argCnt + 1 + rest.length := count
              refine ⟨by rw [List.length_cons]; omega, ?_⟩
              simpa using strings
          · cases stored

/-- Strings fill the empty slots one after the other. -/
theorem convertArgs_strings {items args : List Bytes} {unused : Nat}
    (count : conn.argCnt = items.length)
    (array : conn.argVtr.array = items.map some ++ List.replicate (args.length + unused) none) :
    ∃ after, convertArgs (args.map some) conn = some (true, after) ∧ after.parseDone = true ∧
      after.argCnt = (items ++ args).length ∧
        after.argVtr.array = (items ++ args).map some ++ List.replicate unused none := by
  induction args generalizing conn items with
  | nil => exact ⟨_, rfl, rfl, by simpa using count, by simpa using array⟩
  | cons arg rest ih =>
      have room : conn.argCnt < conn.argVtr.fkVtrLen := by
        rw [FkVtr.fkVtrLen, array, count]
        simp
      have stored : conn.argVtr.array.set conn.argCnt (some arg) =
          (items ++ [arg]).map some ++ List.replicate (rest.length + unused) none := by
        rw [array, count, List.set_append_right _ _ (Nat.le_of_eq (List.length_map _)),
          List.length_map, Nat.sub_self, List.length_cons, Nat.add_right_comm, List.replicate_succ,
          List.set_cons_zero]
        simp
      obtain ⟨after, converted, done, counted, filled⟩ := @ih
        { conn with
          argVtr := { conn.argVtr with array := conn.argVtr.array.set conn.argCnt (some arg) }
          argCnt := conn.argCnt + 1 }
        (items ++ [arg]) (by simp [count]) stored
      refine ⟨after, ?_, done, by simpa using counted, by simpa using filled⟩
      rw [List.map_cons, convertArgs, FkVtr.fkVtrSet, if_pos room]
      exact converted

end Convert

/-! ## Calls -/

namespace LuaConn

variable {fkCmdEval : Handler} {state next : LuaConn} {args : List (Option Bytes)}
  {items : List Bytes}

/-- Between the steps of a run whose calls are plain: nothing is left, or one `EVAL` has not
returned and its arguments are there. -/
def Orderly (state : LuaConn) : Prop :=
  (state.depth = 0 ∧ Reset state.conn) ∨ (state.depth = 1 ∧ ∃ items, Parsed state.conn items)

theorem emptied_of_reset {conn : FkConnIn} (reset : Reset conn) : Emptied conn :=
  ⟨reset.argCnt, reset.argParsed, reset.slots⟩

/-- Stretching keeps empty slots empty. -/
theorem stretched_array {conn : FkConnIn} (reset : Reset conn) (length : Nat) :
    ∃ unused, (conn.argVtr.fkVtrStretch length).array = List.replicate (length + unused) none := by
  have slots : conn.argVtr.array = List.replicate conn.argVtr.array.length none :=
    List.eq_replicate_iff.mpr ⟨rfl, reset.slots⟩
  unfold FkVtr.fkVtrStretch FkVtr.fkVtrLen
  split
  · next longer =>
      refine ⟨0, ?_⟩
      dsimp only
      rw [slots, ← List.replicate_add, List.length_replicate]
      congr 1
      omega
  · next shorter =>
      refine ⟨conn.argVtr.array.length - length, ?_⟩
      rw [slots, List.length_replicate]
      congr 1
      omega

/-- A call of strings on an empty connection stores exactly these. -/
theorem pcallArgs_reset {conn : FkConnIn} (reset : Reset conn) (items : List Bytes) :
    ∃ after, pcallArgs (items.map some) conn = some (true, after) ∧
      after.argSlots = items.map some ∧ (items ≠ [] → Parsed after items) := by
  obtain ⟨unused, array⟩ := stretched_array reset items.length
  obtain ⟨after, converted, done, count, filled⟩ := @convertArgs_strings
    { conn with argParsed := items.length, argVtr := conn.argVtr.fkVtrStretch items.length }
    [] items unused reset.argCnt array
  refine ⟨after, ?_, ?_, fun nonempty => ⟨done, count, ⟨unused, filled⟩, nonempty⟩⟩
  · rw [pcallArgs, List.length_map]
    exact converted
  · rw [FkConnIn.argSlots, filled, count, List.nil_append, List.take_left' (List.length_map _)]

theorem parsed_upperFirst {conn : FkConnIn} (parsed : Parsed conn items) :
    Parsed (upperFirst conn) (items.modifyHead fkStr2upper) := by
  obtain ⟨unused, array⟩ := parsed.slots
  refine ⟨parsed.done, ?_, ⟨unused, ?_⟩, ?_⟩
  · rw [List.length_modifyHead]
    exact parsed.count
  · unfold upperFirst
    rw [array]
    cases items with
    | nil => exact absurd rfl parsed.nonempty
    | cons first rest => rfl
  · cases items with
    | nil => exact absurd rfl parsed.nonempty
    | cons first rest => exact List.cons_ne_nil _ _

/-- Where a plain call leads to. -/
theorem step_plain (flat : state.depth = 0) (reset : Reset state.conn)
    (stepped : state.step fkCmdEval (.pcall (items.map some)) = some next) : Orderly next := by
  obtain ⟨after, converted, slots, parsed⟩ := pcallArgs_reset reset items
  dsimp only [step] at stepped
  rw [converted] at stepped
  dsimp only [procCmd] at stepped
  rw [slots, mapM_some] at stepped
  dsimp only at stepped
  cases items with
  | nil => cases stepped
  | cons first rest =>
      have stored := parsed (List.cons_ne_nil _ _)
      split at stepped
      · cases stepped
        exact .inl ⟨flat, stored.reset⟩
      · cases stepped
        exact .inr ⟨congrArg (· + 1) flat, _, parsed_upperFirst stored⟩
      · cases stepped

theorem strings_of_plain (strings : none ∉ args) : ∃ items : List Bytes, args = items.map some := by
  induction args with
  | nil => exact ⟨[], rfl⟩
  | cons arg rest ih =>
      obtain ⟨items, rfl⟩ := ih fun member => strings (List.mem_cons_of_mem _ member)
      cases arg with
      | none => exact absurd (List.mem_cons_self ..) strings
      | some arg => exact ⟨arg :: items, rfl⟩

/-- The end of a script leaves nothing. -/
theorem step_scriptEnds (orderly : state.Orderly)
    (stepped : state.step fkCmdEval .scriptEnds = some next) :
    next.depth = 0 ∧ Reset next.conn := by
  dsimp only [step] at stepped
  split at stepped
  · cases stepped
  · next running =>
      cases stepped
      rcases orderly with ⟨flat, _⟩ | ⟨deep, items, parsed⟩
      · exact absurd flat running
      · refine ⟨?_, parsed.reset⟩
        dsimp only
        omega

theorem step_orderly {event : LuaEvent} (orderly : state.Orderly) (plain : state.Plain event)
    (stepped : state.step fkCmdEval event = some next) : Orderly next := by
  cases event with
  | pcall args =>
      obtain ⟨flat, strings⟩ := plain
      obtain ⟨items, rfl⟩ := strings_of_plain strings
      rcases orderly with ⟨_, reset⟩ | ⟨deep, _⟩
      · exact step_plain flat reset stepped
      · omega
  | scriptEnds => exact .inl (step_scriptEnds orderly stepped)

/-- A plain call is right. -/
theorem callRight_of_plain (flat : state.depth = 0) (reset : Reset state.conn)
    (items : List Bytes) :
    state.CallRight fkCmdEval (.pcall (items.map some)) := by
  obtain ⟨after, converted, slots, _⟩ := pcallArgs_reset reset items
  refine ⟨⟨true, after, converted, fun _ => slots⟩, fun next stepped returned => ?_⟩
  rcases step_plain flat reset stepped with ⟨_, done⟩ | ⟨deep, _⟩
  · exact emptied_of_reset done
  · omega

/-- What the loop of a call does whatever the connection holds. -/
theorem pcallArgs_counts {complete : Bool} {conn after : FkConnIn}
    (converted : pcallArgs args conn = some (complete, after))
    (inside : conn.argCnt ≤ conn.argVtr.array.length) :
    after.argParsed = args.length ∧ conn.argCnt ≤ after.argCnt ∧
      after.argCnt ≤ after.argVtr.array.length ∧
      (complete = true → after.argCnt = conn.argCnt + args.length ∧ none ∉ args) := by
  refine convertArgs_counts converted (Nat.le_trans inside ?_)
  unfold FkVtr.fkVtrStretch
  dsimp only
  split
  · rw [List.length_append]
    exact Nat.le_add_right ..
  · exact Nat.le_refl _

/-- A call that gives up leaves the number of its arguments. -/
theorem not_callRight_of_value (inside : state.conn.argCnt ≤ state.conn.argVtr.array.length)
    (value : none ∈ args) :
    ¬ state.CallRight fkCmdEval (.pcall args) := by
  rintro ⟨⟨complete, conn, converted, _⟩, leaves⟩
  obtain ⟨announced, _, _, whole⟩ := pcallArgs_counts converted inside
  cases complete with
  | true => exact (whole rfl).2 value
  | false =>
      have stepped : state.step fkCmdEval (.pcall args) = some { state with conn := conn } := by
        dsimp only [step]
        rw [converted]
      have empty : conn.argParsed = 0 := (leaves _ stepped (Nat.le_refl _)).argParsed
      have many := List.length_pos_of_mem value
      omega

/-- A call on top of arguments runs them too, or leaves them. -/
theorem not_callRight_of_args (parsed : Parsed state.conn items) :
    ¬ state.CallRight fkCmdEval (.pcall args) := by
  rintro ⟨⟨complete, conn, converted, own⟩, leaves⟩
  have occupied : 0 < state.conn.argCnt := by
    rw [parsed.count]
    exact List.length_pos_of_ne_nil parsed.nonempty
  have inside : state.conn.argCnt ≤ state.conn.argVtr.array.length := by
    obtain ⟨unused, array⟩ := parsed.slots
    rw [parsed.count, array, List.length_append, List.length_map]
    exact Nat.le_add_right ..
  obtain ⟨_, more, within, whole⟩ := pcallArgs_counts converted inside
  cases complete with
  | true =>
      have count := (whole rfl).1
      have lengths := congrArg List.length (own rfl)
      rw [FkConnIn.argSlots, List.length_take, Nat.min_eq_left within] at lengths
      omega
  | false =>
      have stepped : state.step fkCmdEval (.pcall args) = some { state with conn := conn } := by
        dsimp only [step]
        rw [converted]
      have empty : conn.argCnt = 0 := (leaves _ stepped (Nat.le_refl _)).argCnt
      omega

theorem callRight_iff {event : LuaEvent} (orderly : state.Orderly) :
    state.CallRight fkCmdEval event ↔ state.Plain event := by
  cases event with
  | scriptEnds =>
      exact iff_of_true (fun next stepped => emptied_of_reset (step_scriptEnds orderly stepped).2)
        trivial
  | pcall args =>
      rcases orderly with ⟨flat, reset⟩ | ⟨deep, items, parsed⟩
      · by_cases strings : none ∉ args
        · refine iff_of_true ?_ ⟨flat, strings⟩
          obtain ⟨items, rfl⟩ := strings_of_plain strings
          exact callRight_of_plain flat reset items
        · refine iff_of_false (not_callRight_of_value ?_ (not_not.mp strings)) fun plain =>
            strings plain.2
          rw [reset.argCnt]
          exact Nat.zero_le _
      · refine iff_of_false (not_callRight_of_args parsed) fun plain => ?_
        have flat := plain.1
        omega

/-- Every call of a run is right exactly when every call is plain. -/
theorem run_callRight_iff (fkCmdEval : Handler) (maxWbuf : Nat) (events : List LuaEvent) :
    Throughout (step fkCmdEval) (CallRight fkCmdEval) (create maxWbuf) events ↔
      Throughout (step fkCmdEval) Plain (create maxWbuf) events := by
  have start : Orderly (create maxWbuf) :=
    .inl ⟨rfl, rfl, rfl, rfl, rfl, fun slot member => List.eq_of_mem_replicate member⟩
  exact throughout_iff (fun state event orderly => callRight_iff orderly)
    (fun state event next orderly plain stepped => step_orderly orderly plain stepped) start

/-- A table is no string: what stands before it is left to the next call. -/
theorem create_not_callRight :
    ¬ Throughout (step fun _ => pure ()) (CallRight fun _ => pure ()) (create 0)
      [.pcall [some (ascii "get"), none], .pcall [some (ascii "get"), some (ascii "key")]] := by
  rintro ⟨first, _⟩
  exact absurd (first.2 _ rfl (Nat.le_refl _)).argCnt (by decide)

end LuaConn

end Freekick
