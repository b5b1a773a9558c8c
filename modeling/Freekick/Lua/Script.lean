import Freekick.Lua.Eval
import Freekick.Store.OneReply
import Freekick.Store.Wire
import Mathlib.Algebra.Order.BigOperators.Group.List

/-!
# The answer of a script: `fk_lua_run_script` of `fk_svr_lua.c`

The first value that a script returns is turned into calls of the `fk_conn_add_*_rsp`
family, and no return code of theirs is looked at.  What the Lua interpreter does is an
input here: how the script ended, and what it left on the stack.
-/

namespace Freekick

open Lib.Call Lib.Decimal

/-! ## The code -/

/-- A value on the Lua stack.  A number is what `lua_tointeger` makes of it, a table its
elements from one to `lua_objlen`; functions, threads and user data are not told apart. -/
inductive LuaRet where
  | nil
  | boolean (value : Bool)
  | number (value : Int)
  | string (bytes : Bytes)
  | table (elements : List LuaRet)
  | other

/-- The script does not compile, it fails, or it returns some values. -/
inductive ScriptOutcome where
  | loadError (message : Bytes)
  | runError (message : Bytes)
  | returned (values : List LuaRet)

/-- The inner `switch`. -/
def LuaRet.elementCalls : LuaRet → List Rsp
  | .string bytes => [.bulk bytes.length, .content bytes]
  | .number value => [.int (toInt32 value)]
  | _ => []

/-- The outer `switch`. -/
def LuaRet.calls : LuaRet → List Rsp
  | .number value => [.int (toInt32 value)]
  | .string bytes => [.bulk bytes.length, .content bytes]
  | .nil => [.bulk fkRspNil]
  | .boolean _ => []
  | .table elements => .mbulk elements.length :: elements.flatMap LuaRet.elementCalls
  | .other => []

def ScriptOutcome.calls : ScriptOutcome → List Rsp
  | .loadError message => [.bulk message.length, .content message]
  | .runError message => [.bulk message.length, .content message]
  | .returned [] => [.bulk fkRspNil]
  | .returned (first :: _) => first.calls

/-- A call whose return code is not looked at. -/
def unchecked (rsp : Rsp) : Act Work Unit := fun work =>
  match rsp.send work with
  | .err after => .ok () after
  | outcome => outcome

/-- It always returns zero. -/
def fkLuaRunScript (outcome : ScriptOutcome) : Act Work Unit := Act.forEach unchecked outcome.calls

/-! ## What a client should read -/

/-- An integer, a bulk or the null bulk. -/
inductive Element where
  | int (num : Int)
  | bulk (item : Option Bytes)
  deriving DecidableEq

/-- A reply term: a single one of these, or several behind a header. -/
inductive Term where
  | single (element : Element)
  | multi (elements : List Element)
  deriving DecidableEq

namespace Element

def wire : Element → Bytes
  | .int num => 58 :: (signedDecimal num ++ crlf)
  | .bulk item => (item.map encArg).getD (ascii "$-1\r\n")

def calls : Element → List Rsp
  | .int num => [.int num]
  | .bulk item => bulkCalls item

/-- The strings that go through `%s`. -/
def texts : Element → List Bytes
  | .int _ => []
  | .bulk item => item.toList

end Element

namespace Term

def wire : Term → Bytes
  | .single element => element.wire
  | .multi elements =>
      starByte :: (decimal elements.length ++ crlf ++ elements.flatMap Element.wire)

def calls : Term → List Rsp
  | .single element => element.calls
  | .multi elements => .mbulk elements.length :: elements.flatMap Element.calls

def texts : Term → List Bytes
  | .single element => element.texts
  | .multi elements => elements.flatMap Element.texts

end Term

/-- The reply to a string or a number. -/
def LuaRet.element? : LuaRet → Option Element
  | .string bytes => some (.bulk (some bytes))
  | .number value => some (.int (toInt32 value))
  | _ => none

/-- The reply to an outcome, if the protocol has one for it. -/
def ScriptOutcome.term? : ScriptOutcome → Option Term
  | .loadError message => some (.single (.bulk (some message)))
  | .runError message => some (.single (.bulk (some message)))
  | .returned [] => some (.single (.bulk none))
  | .returned (.nil :: _) => some (.single (.bulk none))
  | .returned (.table elements :: _) => (elements.mapM LuaRet.element?).map .multi
  | .returned (first :: _) => first.element?.map .single

/-- The term answers the outcome: a table is answered by as many elements as it has, and where
the protocol has nothing for a value, any reply is accepted. -/
def ScriptOutcome.AnsweredBy (outcome : ScriptOutcome) (term : Term) : Prop :=
  match outcome with
  | .returned (.table values :: _) => ∃ elements, term = .multi elements ∧
      List.Forall₂ (fun value element => ∀ known, value.element? = some known → element = known)
        values elements
  | _ => ∀ known, outcome.term? = some known → term = known

/-- One reply term is queued, or the command fails. -/
def AnswersOnce (outcome : ScriptOutcome) (work : Work) : Prop :=
  match fkLuaRunScript outcome work with
  | .ok _ after =>
      ∃ term, outcome.AnsweredBy term ∧ after.out.wbuf.payload = work.out.wbuf.payload ++ term.wire
  | .err _ => True
  | .fault => False

/-- The protocol has a reply for the outcome, which holds no string with a zero byte, and there
is space for it. -/
def AnswerFits (outcome : ScriptOutcome) (work : Work) : Prop :=
  ∃ term, outcome.term? = some term ∧ (∀ text ∈ term.texts, (0 : UInt8) ∉ text) ∧
    (work.out.wbuf.load.reserveAll work.out.wbuf.highwat (term.calls.map Rsp.len)).isSome = true

/-! ## Terms and calls -/

/-- The numbers of the term are of the type `int`. -/
def Element.Counted : Element → Prop
  | .int num => toInt32 num = num
  | .bulk item => ∀ text ∈ item, text.length < 2 ^ 31

def Term.Counted : Term → Prop
  | .single element => element.Counted
  | .multi elements => elements.length < 2 ^ 31 ∧ ∀ element ∈ elements, element.Counted

theorem Element.calls_wire {element : Element} (counted : element.Counted) :
    element.calls.flatMap Rsp.wire = element.wire := by
  cases element with
  | int num =>
      rw [Element.calls, List.flatMap_singleton, Rsp.wire, counted]
      rfl
  | bulk item => exact bulkCalls_wire counted

theorem Term.calls_wire {term : Term} (counted : term.Counted) :
    term.calls.flatMap Rsp.wire = term.wire := by
  cases term with
  | single element => exact Element.calls_wire counted
  | multi elements =>
      have each : elements.flatMap (fun element => element.calls.flatMap Rsp.wire) =
          elements.flatMap Element.wire :=
        List.flatMap_congr fun element member => Element.calls_wire (counted.2 element member)
      rw [Term.calls, List.flatMap_cons, List.flatMap_assoc, each, Rsp.wire,
        toInt32_natCast counted.1, signedDecimal_length]
      rfl

theorem Element.calls_zeroFree (element : Element) :
    (∀ rsp ∈ element.calls, (0 : UInt8) ∉ rsp.bytes) ↔ ∀ text ∈ element.texts,
      (0 : UInt8) ∉ text := by
  cases element with
  | int num => simp [Element.calls, Element.texts, Rsp.bytes]
  | bulk item => cases item <;> simp [Element.calls, Element.texts, bulkCalls, Rsp.bytes]

theorem Term.calls_zeroFree (term : Term) :
    (∀ rsp ∈ term.calls, (0 : UInt8) ∉ rsp.bytes) ↔ ∀ text ∈ term.texts, (0 : UInt8) ∉ text := by
  cases term with
  | single element => exact element.calls_zeroFree
  | multi elements =>
      rw [Term.calls, List.forall_mem_cons, List.forall_mem_flatMap, Term.texts,
        List.forall_mem_flatMap]
      refine (and_iff_right List.not_mem_nil).trans ?_
      exact forall₂_congr fun element _ => element.calls_zeroFree

/-- The total length that calls ask for. -/
theorem length_calls_wire (rsps : List Rsp) :
    (rsps.flatMap Rsp.wire).length = (rsps.map Rsp.len).sum := by
  rw [List.length_flatMap]
  exact congrArg List.sum (List.map_congr_left fun rsp _ => Rsp.length_wire rsp)

/-! ## Short terms -/

def Element.Short (element : Element) : Prop := ∀ text ∈ element.texts, text.length < 2 ^ 31

/-- The lengths in the term are of the type `int`. -/
def Term.Short : Term → Prop
  | .single element => element.Short
  | .multi elements => elements.length < 2 ^ 31 ∧ ∀ element ∈ elements, element.Short

/-- A size of elements that no string and no number of elements exceeds. -/
structure Covers (size : Element → Nat) : Prop where
  pos : ∀ element, 0 < size element
  text : ∀ element, ∀ text ∈ element.texts, text.length < size element

theorem Covers.short {size : Element → Nat} (covers : Covers size) {elements : List Element}
    (small : (elements.map size).sum < 2 ^ 31) :
    elements.length < 2 ^ 31 ∧ ∀ element ∈ elements, element.Short := by
  have count : elements.length ≤ (elements.map size).sum := by
    rw [← List.length_map size]
    refine List.length_le_sum_of_one_le _ fun number member => ?_
    obtain ⟨element, _, rfl⟩ := List.mem_map.mp member
    exact covers.pos element
  refine ⟨by omega, ?_⟩
  intro element member text inside
  have one := List.single_le_sum (fun _ _ => Nat.zero_le _) _
    (List.mem_map.mpr ⟨element, member, rfl⟩ : size element ∈ elements.map size)
  have shorter := covers.text element text inside
  omega

theorem Element.covers_wire : Covers fun element => element.wire.length where
  pos := by
    intro element
    cases element with
    | int num => exact Nat.succ_pos _
    | bulk item => cases item <;> exact Nat.succ_pos _
  text := by
    intro element text member
    cases element with
    | int num => cases member
    | bulk item =>
        cases item with
        | none => cases member
        | some bytes =>
            rw [List.mem_singleton.mp member]
            simp [Element.wire, encArg]
            omega

theorem Element.covers_calls : Covers fun element => (element.calls.map Rsp.len).sum where
  pos := by
    intro element
    cases element with
    | int num => simp [Element.calls, Rsp.len]
    | bulk item => cases item <;> simp [Element.calls, bulkCalls, Rsp.len]
  text := by
    intro element text member
    cases element with
    | int num => cases member
    | bulk item =>
        cases item with
        | none => cases member
        | some bytes =>
            rw [List.mem_singleton.mp member]
            simp [Element.calls, bulkCalls, Rsp.len]
            omega

theorem Term.short_of_wire {term : Term} (small : term.wire.length < 2 ^ 31) : term.Short := by
  cases term with
  | single element =>
      intro text member
      exact Nat.lt_trans (Element.covers_wire.text element text member) small
  | multi elements =>
      refine Element.covers_wire.short ?_
      rw [← List.length_flatMap]
      simp only [Term.wire, List.length_cons, List.length_append] at small
      omega

theorem Term.short_of_calls {term : Term} (small : (term.calls.map Rsp.len).sum < 2 ^ 31) :
    term.Short := by
  cases term with
  | single element =>
      intro text member
      exact Nat.lt_trans (Element.covers_calls.text element text member) small
  | multi elements =>
      refine Element.covers_calls.short ?_
      have parts : ((elements.flatMap Element.calls).map Rsp.len).sum =
          (elements.map fun element => (element.calls.map Rsp.len).sum).sum := by
        rw [List.map_flatMap, List.flatMap, List.sum_flatten, List.map_map]
        rfl
      rw [Term.calls, List.map_cons, List.sum_cons, parts] at small
      omega

/-! ## Outcomes and terms -/

section Outcomes

variable {outcome : ScriptOutcome} {term known : Term} {values : List LuaRet}
  {elements others : List Element}

theorem elements_of_mapM (known : values.mapM LuaRet.element? = some elements) :
    List.Forall₂ (fun value element => value.element? = some element) values elements := by
  induction values generalizing elements with
  | nil =>
      cases known
      exact .nil
  | cons value rest ih =>
      rw [List.mapM_cons] at known
      obtain ⟨element, first, known⟩ := Option.bind_eq_some_iff.mp known
      obtain ⟨others, later, known⟩ := Option.bind_eq_some_iff.mp known
      cases known
      exact .cons first (ih later)

/-- A table without a term has an element without one. -/
theorem exists_of_mapM (unknown : values.mapM LuaRet.element? = none) :
    ∃ value ∈ values, value.element? = none := by
  by_contra all
  push Not at all
  induction values with
  | nil => cases unknown
  | cons value rest ih =>
      obtain ⟨element, first⟩ := Option.ne_none_iff_exists'.mp (all value (List.mem_cons_self ..))
      rw [List.mapM_cons, first] at unknown
      cases later : rest.mapM LuaRet.element? with
      | none => exact ih later fun value member => all value (List.mem_cons_of_mem _ member)
      | some others =>
          rw [later] at unknown
          cases unknown

theorem elementCalls_of_element? {value : LuaRet} {element : Element}
    (known : value.element? = some element) :
    value.elementCalls = element.calls ∧ (element.Short → element.Counted) := by
  cases value with
  | string bytes =>
      cases known
      exact ⟨rfl, fun short text member => short text (Option.mem_toList.mpr member)⟩
  | number number =>
      cases known
      exact ⟨rfl, fun _ => toInt32_toInt32 number⟩
  | _ => cases known

/-- Elements that are known make the calls of the table. -/
theorem elements_calls (pairs :
    List.Forall₂ (fun value element => value.element? = some element) values elements) :
    values.length = elements.length ∧
      values.flatMap LuaRet.elementCalls = elements.flatMap Element.calls ∧
      ((∀ element ∈ elements, element.Short) → ∀ element ∈ elements, element.Counted) := by
  induction pairs with
  | nil => exact ⟨rfl, rfl, fun _ => nofun⟩
  | cons first _ ih =>
      obtain ⟨count, calls, counted⟩ := ih
      obtain ⟨same, fits⟩ := elementCalls_of_element? first
      refine ⟨congrArg (· + 1) count, ?_, fun short => ?_⟩
      · rw [List.flatMap_cons, List.flatMap_cons, same, calls]
      · obtain ⟨here, there⟩ := List.forall_mem_cons.mp short
        exact List.forall_mem_cons.mpr ⟨fits here, counted there⟩

theorem calls_of_term? (known : outcome.term? = some term) :
    outcome.calls = term.calls ∧ (term.Short → term.Counted) := by
  have bulk : ∀ item : Option Bytes, Element.Short (.bulk item) → Element.Counted (.bulk item) :=
    fun item short text member => short text (Option.mem_toList.mpr member)
  cases outcome with
  | loadError message | runError message =>
      cases known
      exact ⟨rfl, bulk _⟩
  | returned results =>
      cases results with
      | nil =>
          cases known
          exact ⟨rfl, bulk _⟩
      | cons first rest =>
          cases first with
          | nil =>
              cases known
              exact ⟨rfl, bulk _⟩
          | table values =>
              obtain ⟨elements, all, rfl⟩ := Option.map_eq_some_iff.mp known
              obtain ⟨count, calls, counted⟩ := elements_calls (elements_of_mapM all)
              refine ⟨?_, fun short => ⟨short.1, counted short.2⟩⟩
              change Rsp.mbulk values.length :: values.flatMap LuaRet.elementCalls = _
              rw [count, calls]
              rfl
          | string bytes =>
              cases known
              exact ⟨rfl, bulk _⟩
          | number value =>
              cases known
              exact ⟨rfl, fun _ => toInt32_toInt32 value⟩
          | boolean value | other => cases known

/-- There is one reply for each outcome that has a term. -/
theorem eq_of_answeredBy (answered : outcome.AnsweredBy term) (knows : outcome.term? = some known) :
    term = known := by
  unfold ScriptOutcome.AnsweredBy at answered
  split at answered
  · next values rest =>
      obtain ⟨elements, rfl, fits⟩ := answered
      obtain ⟨others, all, rfl⟩ := Option.map_eq_some_iff.mp knows
      have pairs := elements_of_mapM all
      clear knows all
      congr 1
      induction pairs generalizing elements with
      | nil =>
          cases fits
          rfl
      | cons first _ ih =>
          cases fits with
          | cons head tail => rw [head _ first, ih _ tail]
  · exact answered known knows

/-- The calls of elements ask for no more than their replies are long, and those of an element
without a reply for less. -/
theorem length_elementCalls
    (fits : List.Forall₂ (fun value element => ∀ known, value.element? = some known →
      element = known) values elements)
    (short : ∀ element ∈ elements, element.Short) :
    ((values.flatMap LuaRet.elementCalls).map Rsp.len).sum +
      (values.filter fun value => value.element?.isNone).length ≤
      (elements.flatMap Element.wire).length := by
  induction fits with
  | nil => exact Nat.le_refl _
  | @cons value element values elements first _ ih =>
      obtain ⟨here, there⟩ := List.forall_mem_cons.mp short
      have later := ih there
      rw [List.flatMap_cons, List.flatMap_cons, List.map_append, List.sum_append,
        List.length_append]
      cases known : value.element? with
      | some reply =>
          obtain ⟨calls, counted⟩ := elementCalls_of_element? known
          obtain rfl := first reply known
          rw [calls, List.filter_cons_of_neg (by simp [known]), ← Element.calls_wire (counted here),
            length_calls_wire]
          omega
      | none =>
          have calls : value.elementCalls = [] := by
            cases value with
            | string bytes | number number => cases known
            | _ => rfl
          have pos := Element.covers_wire.pos element
          rw [calls, List.filter_cons_of_pos (by simp [known]), List.length_cons, List.map_nil,
            List.sum_nil]
          omega

theorem Term.wire_pos (term : Term) : 0 < term.wire.length := by
  cases term with
  | single element => exact Element.covers_wire.pos element
  | multi elements => exact Nat.succ_pos _

theorem answeredBy_of_term? (knows : outcome.term? = some term) : outcome.AnsweredBy term := by
  unfold ScriptOutcome.AnsweredBy
  split
  · next values rest =>
      obtain ⟨elements, all, rfl⟩ := Option.map_eq_some_iff.mp knows
      refine ⟨elements, rfl, (elements_of_mapM all).imp fun value element first known same => ?_⟩
      exact Option.some.inj (first.symm.trans same)
  · intro known same
    exact Option.some.inj (knows.symm.trans same)

/-- An outcome that has no term is answered with less than any reply is long. -/
theorem length_calls_lt (answered : outcome.AnsweredBy term) (unknown : outcome.term? = none)
    (short : term.Short) :
    (outcome.calls.map Rsp.len).sum < term.wire.length := by
  cases outcome with
  | loadError message | runError message => cases unknown
  | returned results =>
      cases results with
      | nil => cases unknown
      | cons first rest =>
          cases first with
          | nil | string bytes | number value => cases unknown
          | boolean value | other => exact term.wire_pos
          | table values =>
              obtain ⟨elements, rfl, fits⟩ := answered
              obtain ⟨value, member, without⟩ := exists_of_mapM (Option.map_eq_none_iff.mp unknown)
              have least := length_elementCalls fits short.2
              have missing : 0 < (values.filter fun value => value.element?.isNone).length :=
                List.length_pos_of_mem (List.mem_filter.mpr ⟨member, by simp [without]⟩)
              have header : (Rsp.mbulk values.length).len = (Rsp.mbulk values.length).wire.length :=
                (Rsp.length_wire _).symm
              have count := toInt32_natCast short.1
              change ((Rsp.mbulk values.length :: values.flatMap LuaRet.elementCalls).map
                Rsp.len).sum < _
              rw [List.map_cons, List.sum_cons, header, fits.length_eq, Rsp.wire, count,
                signedDecimal_length, Term.wire]
              simp only [List.length_cons, List.length_append]
              omega

end Outcomes

/-! ## Unchecked calls -/

section Calls

variable {junk : Nat → UInt8} {wbuf : FkBuf} {work after : Work} {rsp : Rsp} {rsps : List Rsp}

/-- The length of a buffer stays a number of the type `int`. -/
theorem len_fkBufAlloc_lt {grown : FkBuf} {length : Nat} (small : wbuf.len < 2 ^ 31)
    (allocated : wbuf.fkBufAlloc length = some grown) :
    grown.len < 2 ^ 31 := by
  have moved : (if wbuf.fkBufFreeLen < length then wbuf.fkBufShift else wbuf).len = wbuf.len := by
    split
    · exact wbuf.fkBufShift_len
    · rfl
  unfold FkBuf.fkBufAlloc at allocated
  dsimp only at allocated
  generalize (if wbuf.fkBufFreeLen < length then wbuf.fkBufShift else wbuf) =
    start at allocated moved
  split at allocated
  · obtain ⟨len, power, resized⟩ := Option.bind_eq_some_iff.mp allocated
    split at resized
    · cases resized
      exact fkUtilMinPower_lt power
    · cases resized
  · cases allocated
    rw [moved]
    exact small

/-- A call extends the queued bytes by its text, or it leaves them. -/
theorem Rsp.queue_payload (small : wbuf.len < 2 ^ 31) :
    (∀ grown, rsp.queue junk wbuf = .ok () grown →
      grown.payload = wbuf.payload ++ printed junk rsp.text rsp.len ∧ grown.len < 2 ^ 31 ∧
        wbuf.load.reserve wbuf.highwat rsp.len = some grown.load ∧ grown.highwat = wbuf.highwat) ∧
      ∀ grown, rsp.queue junk wbuf = .err grown → grown.payload = wbuf.payload ∧
        grown.len < 2 ^ 31 := by
  have spec := Rsp.queue_reserve junk rsp wbuf
  unfold Rsp.queue at spec ⊢
  cases allocated : wbuf.fkBufAlloc rsp.len with
  | none => exact ⟨nofun, nofun⟩
  | some moved =>
      have bounded := len_fkBufAlloc_lt small allocated
      have payload := FkBuf.payload_fkBufAlloc allocated
      rw [allocated] at spec
      dsimp only at spec ⊢
      by_cases short : moved.fkBufFreeLen < rsp.len
      · rw [if_pos short]
        refine ⟨nofun, fun grown same => ?_⟩
        cases same
        exact ⟨payload, bounded⟩
      · rw [if_neg short] at spec ⊢
        refine ⟨fun grown same => ?_, nofun⟩
        cases same
        have appended := @FkBuf.payload_append moved (printed junk rsp.text rsp.len)
          (by rw [length_printed]; exact Nat.not_lt.mp short)
        refine ⟨appended.trans (by rw [payload]), bounded, ?_⟩
        cases reserved : wbuf.load.reserve wbuf.highwat rsp.len with
        | some next =>
            rw [reserved] at spec
            obtain ⟨other, called, queued⟩ := spec
            cases called
            rw [queued.load]
            exact ⟨rfl, queued.highwat⟩
        | none =>
            rw [reserved] at spec
            dsimp only at spec
            split at spec
            · cases spec
            · obtain ⟨other, called⟩ := spec
              cases called

theorem unchecked_apply (rsp : Rsp) (work : Work) :
    unchecked rsp work = match rsp.queue work.svr.junk work.out.wbuf with
      | .ok _ wbuf => .ok () (work.withWbuf wbuf)
      | .err wbuf => .ok () (work.withWbuf wbuf)
      | .fault => .fault := by
  unfold unchecked
  rw [Rsp.send_apply]
  cases rsp.queue work.svr.junk work.out.wbuf <;> rfl

theorem forEach_unchecked_ne_err (rsps : List Rsp) (work after : Work) :
    Act.forEach unchecked rsps work ≠ .err after := by
  induction rsps generalizing work with
  | nil => exact nofun
  | cons rsp rest ih =>
      intro failed
      rcases Act.bind_eq_err failed with refused | ⟨_, middle, _, later⟩
      · rw [unchecked_apply] at refused
        split at refused <;> cases refused
      · exact ih middle later

/-- Calls that all succeed. -/
theorem forEach_unchecked (queued : queueAll work.svr.junk rsps work.out.wbuf = .ok () wbuf) :
    Act.forEach unchecked rsps work = .ok () (work.withWbuf wbuf) := by
  induction rsps generalizing work with
  | nil =>
      cases queued
      rfl
  | cons rsp rest ih =>
      obtain ⟨_, middle, called, later⟩ := Act.bind_eq_ok queued
      have first : unchecked rsp work = .ok () (work.withWbuf middle) := by
        rw [unchecked_apply, called]
      exact (Act.bind_ok first).trans (@ih (work.withWbuf middle) later)

/-- What unchecked calls leave: the texts of those that were not refused. -/
theorem forEach_unchecked_payload (small : work.out.wbuf.len < 2 ^ 31)
    (ran : Act.forEach unchecked rsps work = .ok () after) :
    ∃ accepted : List Rsp, accepted.Sublist rsps ∧ after.out.wbuf.len < 2 ^ 31 ∧
      after.out.wbuf.payload = work.out.wbuf.payload ++ accepted.flatMap
        (fun rsp => printed work.svr.junk rsp.text rsp.len) ∧
      (accepted.length = rsps.length →
        (work.out.wbuf.load.reserveAll work.out.wbuf.highwat (rsps.map Rsp.len)).isSome =
          true) := by
  induction rsps generalizing work with
  | nil =>
      cases ran
      exact ⟨[], .slnil, small, (List.append_nil _).symm, fun _ => rfl⟩
  | cons rsp rest ih =>
      obtain ⟨succeeds, fails⟩ := @Rsp.queue_payload work.svr.junk work.out.wbuf rsp small
      obtain ⟨_, middle, first, later⟩ := Act.bind_eq_ok ran
      rw [unchecked_apply] at first
      split at first
      · next wbuf called =>
          cases first
          obtain ⟨payload, bounded, reserved, highwat⟩ := succeeds wbuf called
          obtain ⟨accepted, sub, last, appended, all⟩ := @ih (work.withWbuf wbuf) bounded later
          refine ⟨rsp :: accepted, sub.cons_cons rsp, last, ?_, fun same => ?_⟩
          · rw [appended, List.flatMap_cons, ← List.append_assoc]
            exact congrArg (· ++ _) payload
          · have fits := all (Nat.succ.inj same)
            change (wbuf.load.reserveAll wbuf.highwat _).isSome = true at fits
            rw [highwat] at fits
            rw [List.map_cons, Space.reserveAll, reserved, Option.bind_some]
            exact fits
      · next wbuf called =>
          cases first
          obtain ⟨payload, bounded⟩ := fails wbuf called
          obtain ⟨accepted, sub, last, appended, _⟩ := @ih (work.withWbuf wbuf) bounded later
          refine ⟨accepted, sub.cons rsp, last, appended.trans (congrArg (· ++ _) payload),
            fun same => ?_⟩
          have fewer := sub.length_le
          rw [same, List.length_cons] at fewer
          exact absurd fewer (Nat.not_succ_le_self _)
      · cases first

end Calls

/-! ## One reply -/

section Answer

variable {outcome : ScriptOutcome} {work : Work}

theorem Rsp.len_pos (rsp : Rsp) : 0 < rsp.len := by
  cases rsp <;> simp [Rsp.len]

/-- Calls that were left out are missed in the total length. -/
theorem sum_len_lt {accepted rsps : List Rsp} (sub : accepted.Sublist rsps)
    (fewer : accepted.length < rsps.length) :
    (accepted.map Rsp.len).sum < (rsps.map Rsp.len).sum := by
  induction sub with
  | slnil => exact absurd fewer (Nat.lt_irrefl _)
  | @cons accepted rest rsp sub _ =>
      have least := (sub.map Rsp.len).sum_le_sum fun _ _ => Nat.zero_le _
      have pos := rsp.len_pos
      rw [List.map_cons, List.sum_cons]
      omega
  | @cons_cons accepted rest rsp _ ih =>
      have later := ih (Nat.lt_of_succ_lt_succ fewer)
      rw [List.map_cons, List.sum_cons, List.map_cons, List.sum_cons]
      omega

/-- The bytes that calls print, when all lengths are of the type `int`. -/
theorem printed_wire_iff {junk : Nat → UInt8} {term : Term} (counted : term.Counted) :
    term.calls.flatMap (fun rsp => printed junk rsp.text rsp.len) = term.wire ↔ ∀ text ∈ term.texts,
      (0 : UInt8) ∉ text := by
  have lengths : ∀ rsp : Rsp, (printed junk rsp.text rsp.len).length = rsp.wire.length := by
    intro rsp
    rw [length_printed, Rsp.length_wire]
  rw [← Term.calls_wire counted, flatMap_congr_iff _ lengths, ← Term.calls_zeroFree]
  exact forall₂_congr fun rsp _ => Rsp.printed_iff junk rsp

theorem length_flatMap_printed (junk : Nat → UInt8) (rsps : List Rsp) :
    (rsps.flatMap fun rsp => printed junk rsp.text rsp.len).length = (rsps.map Rsp.len).sum := by
  rw [List.length_flatMap]
  exact congrArg List.sum (List.map_congr_left fun rsp _ => length_printed junk rsp.text rsp.len)

/-- What is queued is shorter than the buffer. -/
theorem length_queued_lt {wbuf after : FkBuf} {bytes : Bytes} (small : after.len < 2 ^ 31)
    (payload : after.payload = wbuf.payload ++ bytes) : bytes.length < 2 ^ 31 := by
  have lengths := congrArg List.length payload
  have inside := after.high_le
  rw [FkBuf.length_payload, List.length_append, FkBuf.fkBufPayloadLen] at lengths
  omega

theorem answersOnce_of_fits (small : work.out.wbuf.len < 2 ^ 31) (fits : AnswerFits outcome work) :
    AnswersOnce outcome work := by
  obtain ⟨term, knows, clean, room⟩ := fits
  obtain ⟨calls, counted⟩ := calls_of_term? knows
  obtain ⟨wbuf, queued⟩ := @queueAll_of_reserve _ _ _ room
  obtain ⟨_, stored⟩ := queued_of_ok queued
  have ran := forEach_unchecked queued
  obtain ⟨_, _, bounded, _⟩ := forEach_unchecked_payload small ran
  have shorter := length_queued_lt bounded stored.payload
  rw [length_flatMap_printed] at shorter
  unfold AnswersOnce fkLuaRunScript
  rw [calls, ran]
  refine ⟨term, answeredBy_of_term? knows, stored.payload.trans ?_⟩
  rw [(printed_wire_iff (counted (Term.short_of_calls shorter))).mpr clean]

/-- A whole reply is as long as all calls together: there is a term, and no call was refused. -/
theorem fits_of_answersOnce (small : work.out.wbuf.len < 2 ^ 31) (once : AnswersOnce outcome work) :
    AnswerFits outcome work := by
  unfold AnswersOnce at once
  split at once
  · next after ran =>
      obtain ⟨term, answered, payload⟩ := once
      obtain ⟨accepted, sub, bounded, appended, all⟩ := forEach_unchecked_payload small ran
      have short := Term.short_of_wire (length_queued_lt bounded payload)
      have same := List.append_cancel_left (appended.symm.trans payload)
      have lengths := congrArg List.length same
      rw [length_flatMap_printed] at lengths
      cases knows : outcome.term? with
      | none =>
          have less := length_calls_lt answered knows short
          have least := (sub.map Rsp.len).sum_le_sum fun _ _ => Nat.zero_le _
          omega
      | some known =>
          obtain rfl := eq_of_answeredBy answered knows
          obtain ⟨calls, counts⟩ := calls_of_term? knows
          have counted := counts short
          rw [calls] at sub all
          rw [← Term.calls_wire counted, length_calls_wire] at lengths
          have whole : accepted.length = term.calls.length := by
            by_contra differs
            exact absurd lengths (Nat.ne_of_lt
              (sum_len_lt sub (Nat.lt_of_le_of_ne sub.length_le differs)))
          rw [sub.eq_of_length whole] at same
          exact ⟨term, knows, (printed_wire_iff counted).mp same, all whole⟩
  · next failed => exact absurd failed (forEach_unchecked_ne_err _ _ _)
  · exact once.elim

end Answer

theorem fkLuaRunScript_answers_iff {outcome : ScriptOutcome} {work : Work}
    (small : work.out.wbuf.len < 2 ^ 31) :
    AnswersOnce outcome work ↔ AnswerFits outcome work :=
  ⟨fits_of_answersOnce small, answersOnce_of_fits small⟩

theorem fkLuaRunScript_answers_string : freshWork.out.wbuf.len < 2 ^ 31 ∧
    (AnswersOnce (.returned [.string (ascii "value")]) freshWork ↔
      AnswerFits (.returned [.string (ascii "value")]) freshWork) :=
  ⟨by decide, fkLuaRunScript_answers_iff (by decide)⟩

/-- A boolean is answered with nothing. -/
theorem fkLuaRunScript_boolean : ¬ AnswersOnce (.returned [.boolean true]) freshWork := by
  intro once
  obtain ⟨term, _, payload⟩ : ∃ term :
      Term, ScriptOutcome.AnsweredBy (.returned [.boolean true]) term ∧
      freshWork.out.wbuf.payload = freshWork.out.wbuf.payload ++ term.wire := once
  have lengths := congrArg List.length payload
  have pos := term.wire_pos
  rw [List.length_append] at lengths
  omega

/-! ## `EVAL` -/

/-- The script runs on the server, and its outcome is answered. -/
def scriptBy (lua : Bytes → List Bytes → List Bytes → FkSvr → FkSvr × ScriptOutcome) (code : Bytes)
    (keys argv : List Bytes) (work : Work) : Option Work :=
  let ended := lua code keys argv work.svr
  match fkLuaRunScript ended.2 { work with svr := ended.1 } with
  | .ok _ after => some after
  | _ => none

/-- A request that is accepted gets one reply when the outcome of its script has one that fits. -/
theorem fkCmdEval_answers {lua : Bytes → List Bytes → List Bytes → FkSvr → FkSvr × ScriptOutcome}
    {args keys argv : List Bytes} {code : Bytes} {work : Work}
    (course : evalCourse args = .runs code keys argv) (small : work.out.wbuf.len < 2 ^ 31)
    (fits : AnswerFits (lua code keys argv work.svr).2
      { work with svr := (lua code keys argv work.svr).1 }) :
    ∃ after term, fkCmdEval (scriptBy lua) args work = .ok () after ∧
      (lua code keys argv work.svr).2.AnsweredBy term ∧
      after.out.wbuf.payload = work.out.wbuf.payload ++ term.wire := by
  have once := @answersOnce_of_fits _
    { work with svr := (lua code keys argv work.svr).1 } small fits
  unfold AnswersOnce at once
  unfold fkCmdEval scriptBy
  rw [course]
  dsimp only
  split at once
  · next after ran =>
      obtain ⟨term, answered, payload⟩ := once
      rw [ran]
      exact ⟨after, term, rfl, answered, payload⟩
  · next failed => exact absurd failed (forEach_unchecked_ne_err _ _ _)
  · exact once.elim

end Freekick
