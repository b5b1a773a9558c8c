import Freekick.Net.ReadLoop

/-!
# The request grammar

A request is `*` and the number of arguments, then for every argument `$`, its
length and its bytes, each line ended by CRLF and each number in canonical
decimal.  The parser accepts exactly the requests of at most `FK_ARG_CNT_HIGHWAT`
arguments of at most `FK_ARG_HIGHWAT` bytes.
-/

namespace Freekick

open Lib.Decimal Lib.Resume

def encArg (arg : Bytes) : Bytes :=
  dollarByte :: (decimal arg.length ++ carriageReturn :: lineFeed ::
    (arg ++ [carriageReturn, lineFeed]))

def encArgs (args : List Bytes) : Bytes := (args.map encArg).flatten

def enc (args : List Bytes) : Bytes :=
  starByte :: (decimal args.length ++ carriageReturn :: lineFeed :: encArgs args)

/-- The argument vectors inside the limits of the parser. -/
structure Admissible (args : List Bytes) : Prop where
  pos : 1 ≤ args.length
  cnt : args.length ≤ fkArgCntHighwat
  lens : ∀ arg ∈ args, arg.length ≤ fkArgHighwat

/-- The name in upper case is as long. -/
theorem Admissible.upper {args : List Bytes} (admissible : Admissible args) :
    Admissible (fkStr2upper (args.headD []) :: args.tail) := by
  cases args with
  | nil => cases admissible.pos
  | cons name rest =>
      refine ⟨admissible.pos, admissible.cnt, List.forall_mem_cons.mpr ⟨?_, ?_⟩⟩
      · exact (List.length_map _).trans_le (admissible.lens name (List.mem_cons_self ..))
      · exact fun arg member => admissible.lens arg (List.mem_cons_of_mem _ member)

theorem encArgs_cons (arg : Bytes) (args : List Bytes) :
    encArgs (arg :: args) = encArg arg ++ encArgs args := rfl

/-! ## The machine reads every encoding -/

theorem lenLine_reads {arg : Bytes} (fits : arg.length ≤ fkArgHighwat) (rest : Bytes) :
    argLine lenLine (encArg arg ++ rest) =
      .number arg.length ((decimal arg.length).length + 3) := by
  refine (argLine_number_iff lenLine_lawful (by simp [encArg])).mpr
    ⟨arg ++ [carriageReturn, lineFeed] ++ rest, ?_, ?_, Nat.zero_le _, fits, rfl⟩
  · simp [encArg, lenLine]
  · have digits := length_decimal_le (show 0 < 7 by decide)
      (Nat.lt_of_le_of_lt fits (by decide))
    change _ < fkArgLenLineHighwat
    unfold fkArgLenLineHighwat
    omega

theorem cntLine_reads {args : List Bytes} (admissible : Admissible args) (rest : Bytes) :
    argLine cntLine (enc args ++ rest) =
      .number args.length ((decimal args.length).length + 3) := by
  refine (argLine_number_iff cntLine_lawful (by simp [enc])).mpr
    ⟨encArgs args ++ rest, ?_, ?_, admissible.pos, admissible.cnt, rfl⟩
  · simp [enc, cntLine]
  · have digits := length_decimal_le (show 0 < 3 by decide)
      (Nat.lt_of_le_of_lt admissible.cnt (by decide))
    change _ < fkArgCntLineHighwat
    unfold fkArgCntLineHighwat
    omega

/-- Dropping a header line leaves what stands behind its CRLF. -/
theorem drop_header (mark : UInt8) (number : Nat) (rest : Bytes) :
    (mark :: (decimal number ++ carriageReturn :: lineFeed :: rest)).drop
      ((decimal number).length + 3) = rest := by
  rw [show (decimal number).length + 3 = ((decimal number).length + 2) + 1 by omega,
    List.drop_succ_cons, ← List.drop_drop, List.drop_left]
  rfl

/-- The machine inside a request reads the encodings of the remaining arguments. -/
theorem emits_encArgs {expected : Nat} {args more : List Bytes} {room : args.length < expected}
    (count : (args ++ more).length = expected) (lens : ∀ arg ∈ more, arg.length ≤ fkArgHighwat)
    (rest : Bytes) :
    requestMachine.Emits (.busy expected args none room) (encArgs more ++ rest) (args ++ more)
      .idle rest := by
  induction more generalizing args with
  | nil =>
      rw [List.append_nil] at count
      exact absurd room (by rw [count]; exact Nat.lt_irrefl _)
  | cons arg more ih =>
      have fits := lens arg (List.mem_cons_self ..)
      have known : requestMachine.step (.busy expected args none room)
          (encArgs (arg :: more) ++ rest) =
          .move ((decimal arg.length).length + 3)
            (.busy expected args (some arg.length) room) none := by
        change requestStep (.busy expected args none room) (encArgs (arg :: more) ++ rest) = _
        unfold requestStep
        rw [if_neg (by simp [encArgs_cons, encArg]), encArgs_cons, List.append_assoc]
        simp only [lenLine_reads fits]
      refine .silent known ?_
      have shape : (encArgs (arg :: more) ++ rest).drop ((decimal arg.length).length + 3) =
          arg ++ (carriageReturn :: lineFeed :: (encArgs more ++ rest)) := by
        have header := drop_header dollarByte arg.length
          (arg ++ (carriageReturn :: lineFeed :: (encArgs more ++ rest)))
        rw [← header, encArgs_cons, encArg]
        simp
      rw [shape]
      have stored : requestMachine.step (.busy expected args (some arg.length) room)
          (arg ++ (carriageReturn :: lineFeed :: (encArgs more ++ rest))) =
          argVerdict expected (args ++ [arg]) (arg.length + 2) := by
        change requestStep (.busy expected args (some arg.length) room)
          (arg ++ (carriageReturn :: lineFeed :: (encArgs more ++ rest))) = _
        unfold requestStep
        rw [if_neg (by simp)]
        simp only
        rw [if_pos (by simp), if_neg (by simp), List.take_left' rfl]
      have dropped : (arg ++ (carriageReturn :: lineFeed :: (encArgs more ++ rest))).drop
          (arg.length + 2) = encArgs more ++ rest := by
        rw [← List.drop_drop, List.drop_left]
        rfl
      by_cases unfinished : (args ++ [arg]).length < expected
      · rw [argVerdict, dif_pos unfinished] at stored
        refine .silent stored ?_
        rw [dropped]
        have regrouped : ((args ++ [arg]) ++ more).length = expected := by
          rw [List.append_assoc]
          exact count
        have later := @ih (args ++ [arg]) unfinished regrouped
          (fun other member => lens other (List.mem_cons_of_mem _ member))
        rwa [List.append_assoc, List.singleton_append] at later
      · rw [argVerdict, dif_neg unfinished] at stored
        have finished : more = [] := by
          simp only [List.length_append, List.length_cons, List.length_nil] at count unfinished
          exact List.eq_nil_of_length_eq_zero (by omega)
        subst finished
        have emitted := Machine.Emits.last stored
        rwa [dropped] at emitted

theorem emits_enc {args : List Bytes} (admissible : Admissible args) (rest : Bytes) :
    requestMachine.Emits .idle (enc args ++ rest) args .idle rest := by
  have room : ([] : List Bytes).length < args.length := admissible.pos
  have counted : requestMachine.step .idle (enc args ++ rest) =
      .move ((decimal args.length).length + 3) (.busy args.length [] none room) none := by
    rw [requestMachine_idle (by simp [enc]), cntLine_reads admissible rest]
    exact dif_pos room
  refine .silent counted ?_
  have shape : (enc args ++ rest).drop ((decimal args.length).length + 3) =
      encArgs args ++ rest := by
    have header := drop_header starByte args.length (encArgs args ++ rest)
    rw [← header, enc]
    simp
  rw [shape]
  exact @emits_encArgs args.length [] args room rfl admissible.lens rest

/-! ## What the machine emits was encoded -/

/-- The bytes that turn a machine state into a finished argument vector. -/
def Completes (payload : Bytes) (out : List Bytes) (rest : Bytes) : Request → Prop
  | .idle => Admissible out ∧ payload = enc out ++ rest
  | .busy expected args none _ =>
      ∃ more, out = args ++ more ∧ out.length = expected ∧
        (∀ arg ∈ more, arg.length ≤ fkArgHighwat) ∧ payload = encArgs more ++ rest
  | .busy expected args (some argLen) _ =>
      ∃ arg more, out = args ++ arg :: more ∧ out.length = expected ∧ arg.length = argLen ∧
        (∀ other ∈ more, other.length ≤ fkArgHighwat) ∧
        payload = arg ++ carriageReturn :: lineFeed :: (encArgs more ++ rest)

/-- A complete argument at the front of the payload. -/
theorem split_arg {payload : Bytes} {argLen : Nat} (long : argLen + 2 ≤ payload.length)
    (first : payload[argLen]? = some carriageReturn)
    (second : payload[argLen + 1]? = some lineFeed) :
    payload = payload.take argLen ++ carriageReturn :: lineFeed :: payload.drop (argLen + 2) := by
  have firstByte : payload[argLen] = carriageReturn :=
    Option.some.inj ((List.getElem?_eq_getElem (by omega)).symm.trans first)
  have secondByte : payload[argLen + 1] = lineFeed :=
    Option.some.inj ((List.getElem?_eq_getElem (by omega)).symm.trans second)
  conv_lhs => rw [← List.take_append_drop argLen payload,
    List.drop_eq_getElem_cons (show argLen < payload.length by omega),
    List.drop_eq_getElem_cons (show argLen + 1 < payload.length by omega), firstByte, secondByte]

theorem emits_completes {request next : Request} {payload rest : Bytes} {out : List Bytes}
    (emits : requestMachine.Emits request payload out next rest) :
    next = .idle ∧ Completes payload out rest request := by
  induction emits with
  | last verdict =>
      obtain ⟨_, moves⟩ := requestStep_move verdict
      rcases moves with ⟨_, _, _, _, _, silent⟩ | ⟨_, _, _, _, _, _, _, silent⟩ |
        ⟨expected, args, argLen, room, rfl, long, first, second, rfl, final⟩
      · cases silent
      · cases silent
      · unfold argVerdict at final
        split at final
        · cases final
        · next full =>
            cases final
            refine ⟨rfl, _, [], rfl, ?_, ?_, ?_, ?_⟩
            · rw [List.length_append, List.length_singleton] at full ⊢
              omega
            · rw [List.length_take]
              omega
            · intro other member
              cases member
            · exact split_arg long first second
  | silent verdict later ih =>
      obtain ⟨nonempty, moves⟩ := requestStep_move verdict
      obtain ⟨idle, completes⟩ := ih
      refine ⟨idle, ?_⟩
      rcases moves with ⟨argc, room, rfl, read, rfl, _⟩ |
          ⟨expected, args, argl, room, rfl, read, rfl, _⟩ |
        ⟨expected, args, argLen, room, rfl, long, first, second, rfl, final⟩
      · obtain ⟨tail, rfl, _, least, most, rfl⟩ :=
          (argLine_number_iff cntLine_lawful nonempty).mp read
        obtain ⟨more, rfl, count, lens, bytes⟩ := completes
        rw [drop_header] at bytes
        refine ⟨⟨by rw [count]; exact least, by rw [count]; exact most, lens⟩, ?_⟩
        rw [bytes, ← count, enc]
        simp [cntLine]
      · obtain ⟨tail, rfl, _, _, most, rfl⟩ := (argLine_number_iff lenLine_lawful nonempty).mp read
        obtain ⟨arg, more, rfl, count, argLen, lens, bytes⟩ := completes
        rw [drop_header] at bytes
        refine ⟨arg :: more, rfl, count, ?_, ?_⟩
        · intro other member
          rcases List.mem_cons.mp member with same | inMore
          · rw [same, argLen]
            exact most
          · exact lens other inMore
        · rw [bytes, encArgs_cons, encArg, argLen]
          simp [lenLine]
      · unfold argVerdict at final
        split at final
        · cases final
          obtain ⟨more, rfl, count, lens, bytes⟩ := completes
          refine ⟨_, more, by rw [List.append_assoc, List.singleton_append], count, ?_, lens, ?_⟩
          · rw [List.length_take]
            omega
          · rw [← bytes]
            exact split_arg long first second
        · cases final

/-- From the idle state the machine emits exactly what an encoding encodes. -/
theorem emits_idle_iff {payload rest : Bytes} {out : List Bytes} :
    requestMachine.Emits .idle payload out .idle rest ↔
      Admissible out ∧ payload = enc out ++ rest := by
  constructor
  · intro emits
    exact (emits_completes emits).2
  · rintro ⟨admissible, rfl⟩
    exact emits_enc admissible rest

/-! ## The parser accepts exactly the grammar -/

/-- An encoding in front of the payload is read. -/
theorem fkConnParseReq_enc {conn : FkConnIn} {args : List Bytes} {rest : Bytes}
    (reset : Shows conn .idle) (admissible : Admissible args)
    (bytes : conn.rbuf.payload = enc args ++ rest) :
    ∃ stored, fkConnParseReq conn = some (.ok, stored) ∧ stored.argCnt = args.length ∧
      stored.argSlots = args.map some ∧ stored.rbuf.payload = rest := by
  obtain ⟨rt, stored, called, spec⟩ := fkConnParseReq_spec reset
  have run := Machine.Emits.run _ (emits_enc admissible rest)
  rw [← bytes] at run
  cases spec with
  | again waits _ _ =>
      rw [waits] at run
      cases congrArg Stop.outputs run
  | err outputs _ =>
      rw [run] at outputs
      cases outputs
  | ok emits cnt slots _ unread _ =>
      obtain ⟨_, split⟩ := emits_idle_iff.mp emits
      have firstOut := Machine.Emits.run _ emits
      rw [run] at firstOut
      have same : args = _ := (List.cons.inj (congrArg Stop.outputs firstOut)).1
      subst same
      refine ⟨stored, called, cnt, slots, ?_⟩
      rw [unread]
      exact List.append_cancel_left (split.symm.trans bytes)

/-- What is read was an encoding in front of the payload. -/
theorem fkConnParseReq_ok {conn stored : FkConnIn} (reset : Shows conn .idle)
    (returned : fkConnParseReq conn = some (.ok, stored)) :
    ∃ args, Admissible args ∧ stored.argCnt = args.length ∧ stored.argSlots = args.map some ∧
      conn.rbuf.payload = enc args ++ stored.rbuf.payload := by
  obtain ⟨rt, final, called, spec⟩ := fkConnParseReq_spec reset
  rw [returned] at called
  cases called
  cases spec with
  | ok emits cnt slots _ unread _ =>
      obtain ⟨admissible, split⟩ := emits_idle_iff.mp emits
      rw [← unread] at split
      exact ⟨_, admissible, cnt, slots, split⟩

theorem fkConnParseReq_grammar {conn : FkConnIn} (reset : Shows conn .idle) :
    (∀ args rest, Admissible args → conn.rbuf.payload = enc args ++ rest →
      ∃ stored, fkConnParseReq conn = some (.ok, stored) ∧ stored.argCnt = args.length ∧
        stored.argSlots = args.map some ∧ stored.rbuf.payload = rest) ∧
    (∀ stored, fkConnParseReq conn = some (.ok, stored) →
      ∃ args, Admissible args ∧ stored.argCnt = args.length ∧ stored.argSlots = args.map some ∧
        conn.rbuf.payload = enc args ++ stored.rbuf.payload) := by
  constructor
  · intro args rest admissible bytes
    exact fkConnParseReq_enc reset admissible bytes
  · intro stored returned
    exact fkConnParseReq_ok reset returned

/-- A request whose argument holds a line end, with the next request behind it. -/
theorem fkConnParseReq_grammar_crlf :
    let args : List Bytes := [[13, 10]]
    let conn := (fkConnCreate .real 16).toFkConnIn.receive (enc args ++ [starByte])
    Shows conn .idle ∧ Admissible args ∧
      ∃ stored, fkConnParseReq conn = some (.ok, stored) ∧ stored.argSlots = args.map some ∧
        stored.rbuf.payload = [starByte] := by
  intro args conn
  have reset : Shows conn .idle := FkConnIn.receive_shows (fkConnCreate_shows .real 16) _
  have admissible : Admissible args := by
    refine ⟨by decide, by decide, ?_⟩
    intro arg member
    rw [List.mem_singleton.mp member]
    decide
  obtain ⟨stored, called, _, slots, unread⟩ := (fkConnParseReq_grammar reset).1 args [starByte]
    admissible (FkConnIn.payload_receive _ _)
  exact ⟨reset, admissible, stored, called, slots, unread⟩

end Freekick
