import Freekick.Lua.Answers
import Freekick.Net.HeaderLine

/-!
# Decoding the reply of `MGET`

The decoder of tables walks from element to element.  The step behind a null element is one
byte too long: it lands behind the mark of the next element, and no later one is seen.
-/

namespace Freekick

open Lib.Call Lib.Decimal

/-! ## Elements of a table -/

/-- An element of the reply as a client reads it. -/
def itemWire (item : Option Bytes) : Bytes := (item.map encArg).getD (ascii "$-1\r\n")

/-- The elements up to the first that is null. -/
def upToNil : List (Option Bytes) → List (Option Bytes)
  | [] => []
  | none :: _ => [none]
  | some bytes :: rest => some bytes :: upToNil rest

/-- The entries of a table from an index on. -/
def entriesFrom (start : Nat) : List (Option Bytes) → List (LuaKey × LuaScalar)
  | [] => []
  | item :: rest => (.index (start + 1), bulkLua item) :: entriesFrom (start + 1) rest

theorem entriesFrom_eq (start : Nat) (items : List (Option Bytes)) :
    entriesFrom start items = items.mapIdx fun index item =>
      (.index (start + index + 1), bulkLua item) := by
  induction items generalizing start with
  | nil => rfl
  | cons item rest ih =>
      rw [entriesFrom, ih, List.mapIdx_cons]
      simp only [Nat.add_zero, Nat.add_assoc, Nat.add_comm 1]

theorem length_entriesFrom (start : Nat) (items : List (Option Bytes)) :
    (entriesFrom start items).length = items.length := by
  induction items generalizing start with
  | nil => rfl
  | cons item rest ih => rw [entriesFrom, List.length_cons, ih, List.length_cons]

/-- Nothing is missing exactly when no element before the last is null. -/
theorem length_upToNil_iff (items : List (Option Bytes)) :
    (upToNil items).length = items.length ↔ none ∉ items.dropLast := by
  induction items with
  | nil => simp [upToNil]
  | cons item rest ih =>
      cases rest with
      | nil => cases item <;> simp [upToNil]
      | cons next rest =>
          cases item with
          | none => simp [upToNil]
          | some bytes =>
              rw [upToNil, List.length_cons, List.length_cons, Nat.add_right_cancel_iff, ih,
                List.dropLast_cons_cons]
              simp

theorem upToNil_of_length {items : List (Option Bytes)}
    (whole : (upToNil items).length = items.length) : upToNil items = items := by
  induction items with
  | nil => rfl
  | cons item rest ih =>
      cases item with
      | none =>
          have short : rest = [] := by simpa [upToNil] using whole
          rw [short]
          rfl
      | some bytes =>
          rw [upToNil, ih (by simpa [upToNil] using whole)]

/-! ## Steps of the decoder -/

section Steps

variable {memory line rest : Bytes} {start count e len i left : Nat}

theorem searchLine_found (there : memory.drop start = line ++ lineFeed :: rest)
    (absent : lineFeed ∉ line) (near : line.length < count) :
    searchLine memory start count = some (some (start + line.length)) := by
  unfold searchLine
  rw [there, memchr_found rest absent near]

/-- Digits that end with a carriage return. -/
theorem lineFeed_notMem_decimal (number : Nat) : lineFeed ∉ decimal number ++ [carriageReturn] := by
  rw [List.mem_append, List.mem_singleton]
  rintro (digit | other)
  · exact absurd (decimal_digits number lineFeed digit) (by decide)
  · exact absurd other (by decide)

theorem atoi_decimal {number : Nat} (small : number < 2 ^ 31) (rest : Bytes) : atoi
    (decimal number ++ carriageReturn :: rest) = number := by
  rw [atoi_digits rest (decimal_ne_nil number) (decimal_digits number) (by rwa [value_decimal])
    (by decide), value_decimal]

theorem getElem?_of_drop {byte : UInt8} (there : memory.drop start = byte :: rest) :
    memory[start]? = some byte := by
  have head := congrArg List.head? there
  rwa [List.head?_drop, List.head?_cons] at head

theorem drop_of_append (there : memory.drop start = line ++ rest) :
    memory.drop (start + line.length) = rest := by
  rw [← List.drop_drop, there, List.drop_left]

/-- A byte that starts no element ends the table. -/
theorem mbulkLoop_stuck {byte : UInt8} (there : memory[e + 1]? = some byte)
    (notBulk : byte ≠ dollarByte) (notInt : byte ≠ 58) :
    mbulkLoop memory len left (some e) i = some [] := by
  induction left generalizing i with
  | zero => rfl
  | succ left ih =>
      rw [mbulkLoop, there]
      dsimp only
      rw [if_neg notBulk, if_neg notInt, ih]

/-- Bytes that lie in the block. -/
theorem luaPushlstring_there {bytes : Bytes} (there : memory.drop start = bytes ++ rest)
    (within : start ≤ memory.length) :
    luaPushlstring memory start bytes.length = some (.string bytes) := by
  have lengths := congrArg List.length there
  rw [List.length_drop, List.length_append] at lengths
  unfold luaPushlstring
  rw [Int.toNat_natCast, if_pos ⟨by omega, by omega⟩, there, List.take_left]

theorem mbulkLoop_string {bytes : Bytes} (there : memory.drop (e + 1) = encArg bytes ++ rest)
    (small : bytes.length < 2 ^ 31) (near : (decimal bytes.length).length + 1 < len) :
    ∃ next, memory.drop (next + 1) = rest ∧ mbulkLoop memory len (left + 1) (some e) i =
      (mbulkLoop memory len left (some next) (i + 1)).map fun more =>
        (.index (i + 1), .string bytes) :: more := by
  obtain ⟨header, same⟩ : ∃ header, header = decimal bytes.length ++ [carriageReturn] := ⟨_, rfl⟩
  have mark : memory[e + 1]? = some dollarByte := getElem?_of_drop there
  have line : memory.drop (e + 2) = header ++ lineFeed :: (bytes ++ (crlf ++ rest)) := by
    have tail := @drop_of_append memory [dollarByte]
      (decimal bytes.length ++ carriageReturn :: lineFeed :: (bytes ++ crlf) ++ rest)
      (e + 1) (by rw [there]; rfl)
    rw [same]
    simpa [List.append_assoc] using tail
  have shortHeader : header.length < len := by
    rw [same, List.length_append, List.length_singleton]
    exact near
  have absent : lineFeed ∉ header := same ▸ lineFeed_notMem_decimal bytes.length
  have found := searchLine_found line absent shortHeader
  have number : atoi (memory.drop (e + 2)) = bytes.length := by
    rw [line, same, List.append_assoc]
    exact atoi_decimal small _
  have content : memory.drop (e + 2 + header.length + 1) = bytes ++ (crlf ++ rest) := by
    have behind := @drop_of_append memory (header ++ [lineFeed]) (bytes ++ (crlf ++ rest)) (e + 2)
      (by simpa using line)
    simpa [Nat.add_assoc] using behind
  have inside : e + 2 + header.length + 1 ≤ memory.length := by
    have lengths := congrArg List.length content
    rw [List.length_drop, List.length_append, List.length_append] at lengths
    have two : crlf.length = 2 := rfl
    omega
  have value := luaPushlstring_there content inside
  refine ⟨e + 2 + header.length + bytes.length + 2, ?_, ?_⟩
  · have behind := @drop_of_append memory (bytes ++ crlf) rest (e + 2 + header.length + 1)
      (by rw [content, List.append_assoc])
    rw [List.length_append] at behind
    rw [← behind]
    congr 1
    have two : crlf.length = 2 := rfl
    omega
  · have positive : (bytes.length : Int) ≠ -1 := by omega
    have target : ((e + 2 + header.length : Nat) + ((bytes.length : Int) + 2)).toNat = e + 2 +
        header.length + bytes.length + 2 := by omega
    rw [mbulkLoop, mark]
    simp only [if_true, found, number, bulkScalar, positive, if_false, Option.bind_eq_bind,
      Option.bind_some, value, target]
    cases mbulkLoop memory len left (some (e + 2 + header.length + bytes.length + 2))
      (i + 1) <;> rfl

theorem mbulkLoop_nil (there : memory.drop (e + 1) = ascii "$-1\r\n" ++ rest) (near : 3 < len) :
    mbulkLoop memory len (left + 1) (some e) i =
      (mbulkLoop memory len left (some (e + 6)) (i + 1)).map fun more =>
        (.index (i + 1), .boolean false) :: more := by
  have mark : memory[e + 1]? = some dollarByte := getElem?_of_drop there
  have line : memory.drop (e + 2) = [45, 49, carriageReturn] ++ lineFeed :: rest :=
    @drop_of_append memory [dollarByte] ([45, 49, carriageReturn] ++ lineFeed :: rest) (e + 1)
      (by rw [there]; rfl)
  have found := searchLine_found line (by decide) near
  have number : atoi (memory.drop (e + 2)) = -1 := by
    rw [line]
    rfl
  rw [mbulkLoop, mark]
  simp only [if_true, found, number, bulkScalar, Option.bind_eq_bind, Option.bind_some]
  have target : ((e + 2 + [45, 49, carriageReturn].length : Nat) + ((-1 : Int) + 2)).toNat = e +
      6 := by
    rw [show [45, 49, carriageReturn].length = 3 from rfl]
    omega
  rw [target]
  cases mbulkLoop memory len left (some (e + 6)) (i + 1) <;> rfl

/-- Behind its mark an element goes on with a byte that is no mark. -/
theorem itemWire_second (item : Option Bytes) :
    ∃ byte tail, itemWire item = dollarByte :: byte :: tail ∧ byte ≠ dollarByte ∧ byte ≠ 58 := by
  cases item with
  | none => exact ⟨45, _, rfl, by decide, by decide⟩
  | some bytes =>
      obtain ⟨byte, tail, digits⟩ := List.exists_cons_of_ne_nil (decimal_ne_nil bytes.length)
      have digit := decimal_digits bytes.length byte (by simp [digits])
      refine ⟨byte, tail ++ carriageReturn :: lineFeed :: (bytes ++ [carriageReturn, lineFeed]), ?_,
        ?_, ?_⟩
      · change encArg bytes = _
        rw [encArg, digits]
        rfl
      · rintro rfl
        cases digit
      · rintro rfl
        cases digit

/-- The decoder finds the elements up to the first null. -/
theorem mbulkLoop_items (items : List (Option Bytes)) (spare : Bytes)
    (small : ∀ bytes, some bytes ∈ items → bytes.length < 2 ^ 31)
    (near : ∀ item ∈ items, (itemWire item).length ≤ len)
    (there : memory.drop (e + 1) = items.flatMap itemWire ++ spare) :
    mbulkLoop memory len items.length (some e) i = some (entriesFrom i (upToNil items)) := by
  induction items generalizing e i with
  | nil => rfl
  | cons item rest ih =>
      rw [List.flatMap_cons, List.append_assoc] at there
      cases item with
      | none =>
          have five : (itemWire none).length = 5 := by decide
          have long : 3 < len := by
            have bounded := near none (List.mem_cons_self ..)
            omega
          rw [List.length_cons, mbulkLoop_nil there long]
          have ended : mbulkLoop memory len rest.length (some (e + 6)) (i + 1) = some [] := by
            cases rest with
            | nil => rfl
            | cons next others =>
                obtain ⟨byte, tail, second, notBulk, notInt⟩ := itemWire_second next
                have landed := @drop_of_append memory (ascii "$-1\r\n" ++ [dollarByte])
                  (byte :: (tail ++ (others.flatMap itemWire ++ spare))) (e + 1) (by
                    rw [there, List.flatMap_cons, second]
                    simp [itemWire])
                exact mbulkLoop_stuck (getElem?_of_drop landed) notBulk notInt
          rw [ended]
          rfl
      | some bytes =>
          have long := near (some bytes) (List.mem_cons_self ..)
          have header : (decimal bytes.length).length + 1 < len := by
            change (encArg bytes).length ≤ len at long
            simp only [encArg, List.length_cons, List.length_append, List.length_nil] at long
            omega
          obtain ⟨next, later, step⟩ := @mbulkLoop_string memory _ e len i rest.length bytes there
            (small bytes (List.mem_cons_self ..)) header
          rw [List.length_cons, step,
            ih (fun other member => small other (List.mem_cons_of_mem _ member))
            (fun other member => near other (List.mem_cons_of_mem _ member)) later]
          rfl

end Steps

/-! ## The whole reply -/

/-- The payload is decoded to the value, whatever lies behind it, and also when the block ends
there. -/
def DecodesTo (payload : Bytes) (value : LuaValue) : Prop :=
  ∀ buf : FkBuf, buf.payload = payload → fkLuaParseMbulk buf = some (value, buf)

section Reply

variable {results : List (Option Bytes)}

theorem multi_wire (results : List (Option Bytes)) :
    (Reply.multi results).wire = starByte ::
      (decimal results.length ++ crlf ++ results.flatMap itemWire) := rfl

theorem fkLuaParseMbulk_wire (count : results.length < 2 ^ 31)
    (small : ∀ bytes, some bytes ∈ results → bytes.length < 2 ^ 31)
    {buf : FkBuf} (starts : buf.payload = (Reply.multi results).wire) :
    fkLuaParseMbulk buf = some (.table (entriesFrom 0 (upToNil results)), buf) := by
  obtain ⟨spare, known⟩ := memory_eq buf
  obtain ⟨header, same⟩ : ∃ header,
      header = starByte :: (decimal results.length ++ [carriageReturn]) := ⟨_, rfl⟩
  have memory : buf.memory = header ++ lineFeed :: (results.flatMap itemWire ++ spare) := by
    rw [known, starts, multi_wire, same]
    simp [crlf, List.append_assoc]
  have len : buf.fkBufPayloadLen = header.length + 1 + (results.flatMap itemWire).length := by
    have lengths := congrArg List.length starts
    rw [FkBuf.length_payload] at lengths
    rw [lengths, multi_wire, same]
    simp [crlf]
    omega
  have absent : lineFeed ∉ header := by
    rw [same, List.mem_cons, not_or]
    exact ⟨by decide, lineFeed_notMem_decimal results.length⟩
  have found := @searchLine_found buf.memory header _ 0 buf.fkBufPayloadLen memory absent (by omega)
  have number : atoi (buf.memory.drop 1) = results.length := by
    rw [memory, same]
    simpa [List.append_assoc] using atoi_decimal count _
  have body : buf.memory.drop (header.length + 1) = results.flatMap itemWire ++ spare := by
    rw [memory, ← List.drop_drop, List.drop_left]
    rfl
  have near : ∀ item ∈ results, (itemWire item).length ≤ buf.fkBufPayloadLen := by
    intro item member
    have inside : itemWire item ∈ results.map itemWire := List.mem_map_of_mem member
    have within := (List.sublist_flatten_of_mem inside).length_le
    rw [← List.flatMap_def] at within
    omega
  rw [fkLuaParseMbulk, found, number, Int.toNat_natCast]
  simp only [Option.bind_eq_bind, Option.bind_some, Nat.zero_add]
  rw [mbulkLoop_items results spare small near body]
  rfl

/-- What `fk_cmd_mget` finds for its keys. -/
def mgetResults (work : Work) (keys : List Bytes) : List (Option Bytes) :=
  ((work.svr.spaces work.out.dbIdx).lookAll work.clockOn keys).found.map fun value =>
    value.bind Value.bytes?

/-- `fk_cmd_mget` lays out one result for each key. -/
theorem fkCmdMget_lays {work after : Work} {name : Bytes} {keys : List Bytes} (wf : SvrWf work.svr)
    (timed : work.svr.Timed) (called : fkCmdMget (name :: keys) work = .ok () after) :
    (mgetResults work keys).length = keys.length ∧
      queueAll work.svr.junk (Reply.multi (mgetResults work keys)).calls work.out.wbuf = .ok
        () after.out.wbuf := by
  refine ⟨(List.length_map _).trans
    (lookAll_length work.clockOn keys (work.svr.spaces work.out.dbIdx)), ?_⟩
  unfold mgetResults
  have ends := @fkCmdMget_refines work.svr work.out work.svr.spaces name keys wf timed.holds
  simp only [Refines, Work.answer, Cmd.run] at ends
  generalize queueAll work.svr.junk _ work.out.wbuf = outcome at ends ⊢
  cases outcome with
  | ok value wbuf =>
      obtain ⟨final, same, _⟩ := ends
      cases called.symm.trans same
      rfl
  | err wbuf =>
      obtain ⟨_, _, _, _, failed, _⟩ := ends
      cases called.symm.trans failed
  | fault => cases called.symm.trans ends

theorem multi_payload {junk : Nat → UInt8} {wbuf after : FkBuf} (count : results.length < 2 ^ 31)
    (texts : ∀ bytes, some bytes ∈ results → (0 : UInt8) ∉ bytes ∧ bytes.length < 2 ^ 31)
    (empty : wbuf.payload = [])
    (queued : queueAll junk (Reply.multi results).calls wbuf = .ok () after) :
    after.payload = (Reply.multi results).wire := by
  have counted : (Reply.multi results).Counted := by
    constructor
    · intro bytes member
      exact (texts bytes (List.reduceOption_mem_iff.mp member)).2
    · rintro items same
      cases same
      exact count
  obtain ⟨space, laid⟩ := queued_of_ok queued
  have whole := (laid.wire_iff trivial counted).mpr fun bytes member =>
    (texts bytes (List.reduceOption_mem_iff.mp member)).1
  rwa [empty, List.nil_append] at whole

theorem multi_lua (results : List (Option Bytes)) :
    (Reply.multi results).lua = .table (entriesFrom 0 results) := by
  rw [entriesFrom_eq, Reply.lua]
  simp

/-- The decoder inverts the encoder exactly when no result before the last is null. -/
theorem fkLuaParseMbulk_inverts_iff {junk : Nat → UInt8} {wbuf after : FkBuf}
    (count : results.length < 2 ^ 31) (texts : ∀ bytes, some bytes ∈ results → (0 : UInt8) ∉ bytes ∧
      bytes.length < 2 ^ 31) (empty : wbuf.payload = [])
    (queued : queueAll junk (Reply.multi results).calls wbuf = .ok () after) :
    DecodesTo after.payload (Reply.multi results).lua ↔ none ∉ results.dropLast := by
  have payload := multi_payload count texts empty queued
  have small : ∀ bytes, some bytes ∈ results → bytes.length < 2 ^ 31 :=
    fun bytes member => (texts bytes member).2
  rw [multi_lua, ← length_upToNil_iff]
  constructor
  · intro decodes
    have decoded := (fkLuaParseMbulk_wire count small payload).symm.trans (decodes after rfl)
    have entries := LuaValue.table.inj (Prod.mk.inj (Option.some.inj decoded)).1
    have lengths := congrArg List.length entries
    rwa [length_entriesFrom, length_entriesFrom] at lengths
  · intro whole buf same
    rw [fkLuaParseMbulk_wire count small (same.trans payload), upToNil_of_length whole]

theorem fkLuaParseMbulk_inverts_last : ∃ after,
    queueAll (fun _ => 0) (Reply.multi [some (ascii "v"), none]).calls
      (fkBufCreate fkBufInitLen fkBufHighwat) = .ok () after ∧
      (DecodesTo after.payload (Reply.multi [some (ascii "v"), none]).lua ↔
        none ∉ [some (ascii "v"), none].dropLast) := by
  obtain ⟨after, queued⟩ := @queueAll_of_reserve (fun _ => 0)
    (fkBufCreate fkBufInitLen fkBufHighwat) (Reply.multi [some (ascii "v"), none]).calls
      (by decide +kernel)
  refine ⟨after, queued, fkLuaParseMbulk_inverts_iff (by decide) ?_ rfl queued⟩
  intro bytes member
  obtain rfl : bytes = ascii "v" := by simpa using member
  decide

/-- A null element hides the one behind it. -/
theorem fkLuaParseMbulk_loses : ∃ after,
    queueAll (fun _ => 0) (Reply.multi [none, some (ascii "v")]).calls
      (fkBufCreate fkBufInitLen fkBufHighwat) = .ok () after ∧
      fkLuaParseMbulk after = some (.table [(.index 1, .boolean false)], after) ∧
      ¬DecodesTo after.payload (Reply.multi [none, some (ascii "v")]).lua := by
  obtain ⟨after, queued⟩ := @queueAll_of_reserve (fun _ => 0)
    (fkBufCreate fkBufInitLen fkBufHighwat) (Reply.multi [none, some (ascii "v")]).calls
      (by decide +kernel)
  have texts : ∀ bytes, some bytes ∈ [none, some (ascii "v")] → (0 : UInt8) ∉ bytes ∧
      bytes.length < 2 ^ 31 := by
    intro bytes member
    obtain rfl : bytes = ascii "v" := by simpa using member
    decide
  have payload := @multi_payload [none, some (ascii "v")] _ _ _ (by decide) texts rfl queued
  have decoded := @fkLuaParseMbulk_wire [none, some (ascii "v")] (by decide)
    (fun bytes member => (texts bytes member).2) after payload
  refine ⟨after, queued, decoded, fun decodes => ?_⟩
  have both := decoded.symm.trans (decodes after rfl)
  rw [multi_lua] at both
  have entries := LuaValue.table.inj (Prod.mk.inj (Option.some.inj both)).1
  cases congrArg List.length entries

end Reply

end Freekick
