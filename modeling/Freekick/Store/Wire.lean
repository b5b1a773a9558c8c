import Freekick.Net.Grammar
import Freekick.Store.Dispatch
import Freekick.Store.Space
import Freekick.Store.System
import Mathlib.Data.List.ReduceOption

/-!
# Replies on the wire

What a client should read for a reply term, and what the calls of the
`fk_conn_add_*_rsp` family put into the write buffer instead.  Contents go through `%s`,
so the two agree exactly on contents without a zero byte.
-/

namespace Freekick

open Lib.Call Lib.Decimal

namespace Rsp

/-- What the call should append. -/
def wire : Rsp → Bytes
  | .status stat => 43 :: (stat ++ crlf)
  | .error message => 45 :: (message ++ crlf)
  | .content bytes => bytes ++ crlf
  | .int num => 58 :: (signedDecimal (toInt32 num) ++ crlf)
  | .bulk bulkLen => dollarByte :: (signedDecimal (toInt32 bulkLen) ++ crlf)
  | .mbulk bulkCnt => starByte :: (signedDecimal (toInt32 bulkCnt) ++ crlf)

/-- The bytes that the call prints with `%s`. -/
def bytes : Rsp → Bytes
  | .status stat => stat
  | .error message => message
  | .content bytes => bytes
  | _ => []

theorem length_signedDecimal (number : Int) :
    (signedDecimal number).length = fkUtilDecimalDigit number := by
  unfold signedDecimal fkUtilDecimalDigit
  split
  · rw [List.length_cons, Nat.add_comm]
  · rw [Nat.zero_add]

theorem length_wire (rsp : Rsp) : rsp.wire.length = rsp.len := by
  have tail : crlf.length = 2 := rfl
  cases rsp <;> simp only [wire, len, List.length_cons, List.length_append,
    length_signedDecimal, tail]

end Rsp

/-- A text that is cut at a zero byte goes on with a carriage return there. -/
theorem printed_cut (junk : Nat → UInt8) {bytes : Bytes} (mark : Bytes)
    (zero : (0 : UInt8) ∈ bytes) :
    printed junk (mark ++ (cString bytes ++ crlf)) (mark.length + (bytes.length + 2)) ≠ mark ++
      (bytes ++ crlf) := by
  obtain ⟨rest, split⟩ := cString_split zero
  generalize cString bytes = start at split
  subst split
  intro same
  have whole : (mark ++ (start ++ crlf)).take (mark.length + ((start ++ 0 :: rest).length + 2)) =
      mark ++ (start ++ crlf) := by
    refine List.take_of_length_le ?_
    simp only [List.length_append, crlf, List.length_cons, List.length_nil]
    omega
  have here := congrArg (fun text => text[mark.length + start.length]?) same
  have inside : mark.length + start.length < mark.length + ((start ++ 0 :: rest).length + 2) := by
    rw [List.length_append]
    omega
  rw [printed, whole, List.getElem?_take_of_lt inside] at here
  simp [crlf, carriageReturn] at here

theorem printed_whole (junk : Nat → UInt8) {text : Bytes} {len : Nat} (same : text.length = len) :
    printed junk text len = text := by
  rw [← same]
  exact printed_eq junk text

theorem Rsp.printed_iff (junk : Nat → UInt8) (rsp : Rsp) :
    printed junk rsp.text rsp.len = rsp.wire ↔ (0 : UInt8) ∉ rsp.bytes := by
  -- The family of `%s` texts: a mark, the bytes and the end of the line.
  have texts : ∀ mark bytes :
      Bytes, printed junk (mark ++ (cString bytes ++ crlf)) (mark.length + (bytes.length + 2)) =
      mark ++ (bytes ++ crlf) ↔ (0 : UInt8) ∉ bytes := by
    intro mark bytes
    refine ⟨fun same zero => printed_cut junk mark zero same, fun absent => ?_⟩
    rw [cString_of_no_zero absent]
    refine printed_whole junk ?_
    simp only [List.length_append, crlf, List.length_cons, List.length_nil]
  have numbers : ∀ (mark : UInt8) (number : Int),
      printed junk (mark :: (signedDecimal number ++ crlf))
      (fkUtilDecimalDigit number + 3) = mark :: (signedDecimal number ++ crlf) := by
    intro mark number
    refine printed_whole junk ?_
    simp only [List.length_append, crlf, List.length_cons, List.length_nil, length_signedDecimal]
  cases rsp with
  | status stat =>
      have known := texts [43] stat
      rw [List.length_singleton, Nat.add_comm] at known
      exact known
  | error message =>
      have known := texts [45] message
      rw [List.length_singleton, Nat.add_comm] at known
      exact known
  | content bytes =>
      have known := texts [] bytes
      rw [List.length_nil, Nat.zero_add] at known
      exact known
  | int num => exact iff_of_true (numbers 58 (toInt32 num)) List.not_mem_nil
  | bulk bulkLen => exact iff_of_true (numbers dollarByte (toInt32 bulkLen)) List.not_mem_nil
  | mbulk bulkCnt => exact iff_of_true (numbers starByte (toInt32 bulkCnt)) List.not_mem_nil

/-! ## Reply terms -/

namespace Reply

/-- What a client should read. -/
def wire : Reply → Bytes
  | .status stat => 43 :: (stat ++ crlf)
  | .error message => 45 :: (message ++ crlf)
  | .int num => 58 :: (signedDecimal num ++ crlf)
  | .nil => ascii "$-1\r\n"
  | .bulk bytes => encArg bytes
  | .multi items => starByte :: (decimal items.length ++ crlf ++
      items.flatMap fun item => (item.map encArg).getD (ascii "$-1\r\n"))

/-- The values in the term. -/
def values : Reply → List Bytes
  | .bulk bytes => [bytes]
  | .multi items => items.reduceOption
  | _ => []

/-- The lengths in the term are numbers of the type `int`. -/
structure Counted (reply : Reply) : Prop where
  values : ∀ value ∈ reply.values, value.length < 2 ^ 31
  items : ∀ items, reply = .multi items → items.length < 2 ^ 31

end Reply

theorem signedDecimal_length (count : Nat) : signedDecimal count = decimal count := by
  unfold signedDecimal
  rw [if_neg (by omega), Int.natAbs_natCast]

theorem flatMap_congr_iff {A : Type} {first second : A → Bytes} (items : List A)
    (lengths : ∀ item, (first item).length = (second item).length) :
    items.flatMap first = items.flatMap second ↔ ∀ item ∈ items, first item = second item := by
  induction items with
  | nil => exact iff_of_true rfl (fun _ member => nomatch member)
  | cons item rest ih =>
      rw [List.flatMap_cons, List.flatMap_cons, List.forall_mem_cons, ← ih]
      exact ⟨fun same => List.append_inj same (lengths item), fun both => congrArg₂ _ both.1 both.2⟩

theorem bulkCalls_wire {item : Option Bytes} (small : ∀ value ∈ item, value.length < 2 ^ 31) :
    (bulkCalls item).flatMap Rsp.wire = (item.map encArg).getD (ascii "$-1\r\n") := by
  cases item with
  | none => decide
  | some bytes =>
      have number := toInt32_natCast (small bytes rfl)
      simp only [bulkCalls, List.flatMap_cons, List.flatMap_nil, Rsp.wire, number,
        signedDecimal_length, encArg, crlf, Option.map_some, Option.getD_some, List.cons_append,
        List.append_assoc, List.nil_append, List.append_nil]

/-- The terms that carry values. -/
def Reply.Carries : Reply → Prop
  | .bulk _ | .multi _ => True
  | _ => False

theorem Reply.calls_wire {reply : Reply} (carries : reply.Carries) (counted : reply.Counted) :
    reply.calls.flatMap Rsp.wire = reply.wire := by
  cases reply with
  | bulk bytes => exact @bulkCalls_wire (some bytes) fun value member => counted.values value (by
      rw [Option.mem_some.mp member]
      exact List.mem_singleton.mpr rfl)
  | multi items =>
      have count := toInt32_natCast (counted.items items rfl)
      have each : ∀ item ∈ items, (bulkCalls item).flatMap Rsp.wire = (item.map encArg).getD
          (ascii "$-1\r\n") := by
        intro item member
        refine bulkCalls_wire fun value inside => counted.values value ?_
        rw [Option.mem_def.mp inside] at member
        exact List.reduceOption_mem_iff.mpr member
      simp only [calls, List.flatMap_cons, List.flatMap_assoc, Rsp.wire, count,
        signedDecimal_length, wire, List.cons_append]
      rw [List.flatMap_congr each]
  | _ => exact carries.elim

theorem Reply.calls_zeroFree {reply : Reply} (carries : reply.Carries) :
    (∀ rsp ∈ reply.calls, (0 : UInt8) ∉ rsp.bytes) ↔ ∀ value ∈ reply.values,
      (0 : UInt8) ∉ value := by
  have bulk : ∀ item : Option Bytes, (∀ rsp ∈ bulkCalls item, (0 : UInt8) ∉ rsp.bytes) ↔
      ∀ value ∈ item, (0 : UInt8) ∉ value := by
    intro item
    cases item with
    | none => simp [bulkCalls, Rsp.bytes]
    | some bytes => simp [bulkCalls, Rsp.bytes]
  cases reply with
  | bulk bytes => simpa [calls, values] using bulk (some bytes)
  | multi items =>
      rw [calls, List.forall_mem_cons, List.forall_mem_flatMap]
      refine (and_iff_right List.not_mem_nil).trans ?_
      simp only [bulk]
      constructor
      · intro free value member
        exact free (some value) (List.reduceOption_mem_iff.mp member) value rfl
      · intro free item member value inside
        rw [Option.mem_def.mp inside] at member
        exact free value (List.reduceOption_mem_iff.mpr member)
  | _ => exact carries.elim

/-- The queued bytes are those that a client should read exactly when no value holds a
zero byte. -/
theorem Queued.wire_iff {junk : Nat → UInt8} {reply : Reply} {wbuf after : FkBuf} {space : Space}
    (queued : Queued junk reply.calls wbuf after space) (carries : reply.Carries)
    (counted : reply.Counted) :
    after.payload = wbuf.payload ++ reply.wire ↔ ∀ value ∈ reply.values, (0 : UInt8) ∉ value := by
  have lengths : ∀ rsp : Rsp, (printed junk rsp.text rsp.len).length = rsp.wire.length := by
    intro rsp
    rw [length_printed, Rsp.length_wire]
  rw [queued.payload, ← Reply.calls_wire carries counted, List.append_cancel_left_eq,
    flatMap_congr_iff _ lengths, ← Reply.calls_zeroFree carries]
  exact forall₂_congr fun rsp _ => Rsp.printed_iff junk rsp

/-! ## Requests that fetch values -/

/-- The key has no deadline, or the next readings of the clock are not past it. -/
def Work.Alive (work : Work) (readings : Nat) (key : Bytes) : Prop :=
  ∀ deadline, fkDictGet dbDictEop (work.svr.expdb work.out.dbIdx) key = some (.num deadline) →
    ∀ reading < readings, work.clockOn reading ≤ deadline

/-- The string under a key of the selected database. -/
def Work.string? (work : Work) (key : Bytes) : Option Bytes :=
  match fkDictGet dbDictEop (work.svr.db work.out.dbIdx) key with
  | some (.str bytes) => some bytes
  | _ => none

/-- A request for values that are stored, with the term that holds them. -/
inductive Fetches (work : Work) : List Bytes → Reply → Prop
  | get {name key bytes : Bytes} (named : fkStr2upper name = ascii "GET") (alive : work.Alive 1 key)
      (held : work.string? key = some bytes) : Fetches work [name, key] (.bulk bytes)
  | mget {name key : Bytes} {keys : List Bytes} (named : fkStr2upper name = ascii "MGET")
      (alive : ∀ other ∈ key :: keys, work.Alive (key :: keys).length other) :
      Fetches work (name :: key :: keys) (.multi ((key :: keys).map work.string?))
  | hget {name hkey key bytes : Bytes} {fields : FkDict Bytes Bytes}
      (named : fkStr2upper name = ascii "HGET")
      (hash : fkDictGet dbDictEop (work.svr.db work.out.dbIdx) hkey = some (.dict fields))
      (held : fkDictGet dbDictEop fields key = some bytes) :
      Fetches work [name, hkey, key] (.bulk bytes)
  | pop {name key bytes : Bytes} {pos : ListPos} {nodes : List Bytes}
      (named : (fkStr2upper name, pos) ∈
        [(ascii "LPOP", ListPos.head), (ascii "RPOP", ListPos.tail)])
      (list : fkDictGet dbDictEop (work.svr.db work.out.dbIdx) key = some (.list nodes))
      (held : pos.node? nodes = some bytes) : Fetches work [name, key] (.bulk bytes)

namespace Keyspace

variable {space : Keyspace} {clock : Nat → Int} {key : Bytes}

/-- A look at a key whose time is not over changes nothing. -/
theorem look_alive (alive : ∀ deadline, space.deadlines key = some deadline → clock 0 ≤ deadline) :
    (space.look clock key).found = space.values key ∧ (space.look clock key).left = space ∧
      (space.look clock key).readings ≤ 1 := by
  unfold look
  cases limit : space.deadlines key with
  | none => exact ⟨rfl, rfl, Nat.zero_le 1⟩
  | some deadline =>
      dsimp only
      rw [if_neg (Int.not_lt.mpr (alive deadline limit))]
      exact ⟨rfl, rfl, Nat.le_refl 1⟩

theorem lookAll_alive {keys : List Bytes}
    (alive : ∀ key ∈ keys, ∀ deadline, space.deadlines key = some deadline →
      ∀ reading < keys.length, clock reading ≤ deadline) :
    (space.lookAll clock keys).found = keys.map space.values := by
  induction keys generalizing clock with
  | nil => rfl
  | cons key rest ih =>
      have first := @look_alive space clock key fun deadline limit =>
        alive key (List.mem_cons_self ..) deadline limit 0 (Nat.succ_pos _)
      have later := @ih (fun reading => clock ((space.look clock key).readings + reading))
        fun other member deadline limit reading inside =>
          alive other (List.mem_cons_of_mem _ member) deadline limit _ (by
            rw [List.length_cons]
            omega)
      rw [lookAll, List.map_cons]
      dsimp only
      rw [first.1, first.2.1, later]

end Keyspace

section Fetching

variable {good : Bytes → Prop} {fkCmdEval : Handler} {work after : Work} {args : List Bytes}
  {reply : Reply}

theorem Work.Alive.deadline {readings : Nat} {key : Bytes} (alive : work.Alive readings key)
    {deadline : Int} (limit : (work.svr.spaces work.out.dbIdx).deadlines key = some deadline) :
    ∀ reading < readings, work.clockOn reading ≤ deadline := by
  obtain ⟨item, held, number⟩ := Option.bind_eq_some_iff.mp limit
  cases item with
  | num other =>
      cases number
      exact alive deadline held
  | _ => cases number

theorem Work.string?_eq (work : Work) (key : Bytes) :
    work.string? key = ((work.svr.spaces work.out.dbIdx).values key).bind Value.bytes? := by
  change _ = ((fkDictGet dbDictEop (work.svr.db work.out.dbIdx) key).map FkItem.value).bind
    Value.bytes?
  unfold Work.string?
  cases fkDictGet dbDictEop (work.svr.db work.out.dbIdx) key with
  | none => rfl
  | some item => cases item <;> rfl

theorem values_of_get {key : Bytes} {item : FkItem}
    (held : fkDictGet dbDictEop (work.svr.db work.out.dbIdx) key = some item) :
    (work.svr.spaces work.out.dbIdx).values key = some item.value :=
      congrArg (Option.map FkItem.value) held

/-- The answer to such a request. -/
theorem Fetches.answer (fetches : Fetches work args reply) :
    ∃ answer, work.answer work.svr.spaces (cmdOf args) = some answer ∧ answer.reply = reply := by
  cases fetches with
  | @get name key bytes named alive held =>
      have looked := @Keyspace.look_alive (work.svr.spaces work.out.dbIdx) work.clockOn key
        fun deadline limit => alive.deadline limit 0 Nat.one_pos
      rw [Work.string?_eq] at held
      obtain ⟨value, found, bytesOf⟩ := Option.bind_eq_some_iff.mp held
      rw [cmdOf_get named]
      refine ⟨_, rfl, ?_⟩
      change getReply ((work.svr.spaces work.out.dbIdx).look work.clockOn key).found = _
      rw [looked.1, found]
      cases value with
      | str text =>
          cases bytesOf
          rfl
      | _ => cases bytesOf
  | @mget name key keys named alive =>
      have command : cmdOf (name :: key :: keys) = .mget (key :: keys) := by
        rw [show cmdOf (name :: key :: keys) = Cmd.read (fkStr2upper name) (key :: keys) from rfl,
          named]
        rfl
      have looked := @Keyspace.lookAll_alive (work.svr.spaces work.out.dbIdx) work.clockOn
        (key :: keys) fun other member deadline limit => (alive other member).deadline limit
      rw [command]
      refine ⟨_, rfl, congrArg Reply.multi ?_⟩
      rw [looked, List.map_map]
      exact List.map_congr_left fun other _ => (work.string?_eq other).symm
  | @hget name hkey key bytes fields named hash held =>
      rw [cmdOf_hget named]
      refine ⟨_, rfl, ?_⟩
      change hgetReply key ((work.svr.spaces work.out.dbIdx).values hkey) = _
      rw [values_of_get hash]
      simp only [FkItem.value, hgetReply, held]
  | @pop name key bytes pos nodes named list held =>
      have command : cmdOf [name, key] = .pop pos key := by
        rw [show cmdOf [name, key] = Cmd.read (fkStr2upper name) [key] from rfl]
        simp only [List.mem_cons, Prod.mk.injEq, List.not_mem_nil, or_false] at named
        rcases named with ⟨named, rfl⟩ | ⟨named, rfl⟩
        · rw [named]
          rfl
        · rw [named]
          rfl
      rw [command]
      rw [Work.answer, Cmd.run, values_of_get list]
      dsimp only [FkItem.value]
      rw [held]
      exact ⟨_, rfl, rfl⟩

/-- It is a request of a known command. -/
theorem Fetches.request (fetches : Fetches work args reply) :
    args ≠ [] ∧ fkStr2upper (args.headD []) ≠ ascii "EVAL" := by
  cases fetches with
  | get named | mget named | hget named =>
      refine ⟨List.cons_ne_nil _ _, ?_⟩
      rw [List.headD_cons, named]
      decide
  | pop named =>
      refine ⟨List.cons_ne_nil _ _, fun eval => ?_⟩
      rw [List.headD_cons] at eval
      rw [eval] at named
      revert named
      simp only [List.mem_cons, Prod.mk.injEq, List.not_mem_nil, or_false]
      rintro (⟨same, _⟩ | ⟨same, _⟩)
      · exact absurd same (by decide)
      · exact absurd same (by decide)

/-- Stored values are arguments of a request. -/
theorem Work.string?_short {key bytes : Bytes} (ok : SvrOk ArgName work.svr)
    (held : work.string? key = some bytes) :
    bytes.length < 2 ^ 31 := by
  unfold Work.string? at held
  split at held
  · next text found =>
      cases held
      exact Nat.lt_of_le_of_lt ((ok false work.out.dbIdx).held key _ found).2 (by decide)
  · cases held

theorem bulk_counted {bytes : Bytes} (short : bytes.length < 2 ^ 31) :
    (Reply.bulk bytes).Counted where
  values := List.forall_mem_singleton.mpr short
  items := nofun

theorem Fetches.counted (fetches : Fetches work args reply) (ok : SvrOk ArgName work.svr)
    (count : args.length ≤ fkArgCntHighwat) : reply.Carries ∧ reply.Counted := by
  have argument : fkArgHighwat < 2 ^ 31 := by decide
  cases fetches with
  | get named alive held => exact ⟨trivial, bulk_counted (Work.string?_short ok held)⟩
  | @mget name key keys named alive =>
      refine ⟨trivial, ?_, ?_⟩
      · intro value member
        obtain ⟨other, _, held⟩ := List.mem_map.mp (List.reduceOption_mem_iff.mp member)
        exact Work.string?_short ok held
      · intro items same
        have items : items = _ := (Reply.multi.inj same).symm
        have limit : fkArgCntHighwat < 2 ^ 31 := by decide
        rw [List.length_cons] at count
        rw [items, List.length_map]
        omega
  | @hget name hkey key bytes fields named hash held =>
      have fits : bytes.length ≤ fkArgHighwat :=
        ((((ok false work.out.dbIdx).held hkey _ hash).2 : (FkItem.dict fields).Ok ArgName).2 key
          bytes held).2
      exact ⟨trivial, bulk_counted (Nat.lt_of_le_of_lt fits argument)⟩
  | @pop name key bytes pos nodes named list held =>
      have fits : bytes.length ≤ fkArgHighwat :=
        (((ok false work.out.dbIdx).held key _ list).2 : (FkItem.list nodes).Ok ArgName) bytes
        (node?_mem held)
      exact ⟨trivial, bulk_counted (Nat.lt_of_le_of_lt fits argument)⟩

theorem fkConnAddContentRsp_binary_iff (ok : SvrOk ArgName work.svr) (timed : work.svr.Timed) :
    (∀ content : Bytes, content.length ≤ fkArgHighwat →
      addBulkAndContent content work = .ok () after →
      (after.out.wbuf.payload = work.out.wbuf.payload ++ encArg content ↔ (0 : UInt8) ∉ content)) ∧
    ∀ args reply, Fetches work args reply → args.length ≤ fkArgCntHighwat →
      procArgs fkCmdEval args work = .ok () after →
      (after.out.wbuf.payload = work.out.wbuf.payload ++ reply.wire ↔
        ∀ value ∈ reply.values, (0 : UInt8) ∉ value) := by
  refine ⟨?_, ?_⟩
  · intro content fits called
    rw [← sendAll_bulk, sendAll_apply] at called
    cases queued : queueAll work.svr.junk (bulkCalls (some content)) work.out.wbuf with
    | ok value wbuf =>
        rw [queued] at called
        cases called
        obtain ⟨space, known⟩ := @queued_of_ok _ _ (Reply.bulk content).calls _ queued
        have counted := bulk_counted (Nat.lt_of_le_of_lt fits (by decide))
        exact (known.wire_iff trivial counted).trans List.forall_mem_singleton
    | err wbuf =>
        rw [queued] at called
        cases called
    | fault =>
        rw [queued] at called
        cases called
  · intro args reply fetches count called
    obtain ⟨nonempty, notEval⟩ := fetches.request
    obtain ⟨answer, ran, rfl⟩ := fetches.answer
    obtain ⟨carries, counted⟩ := fetches.counted ok count
    have dispatched := @procArgs_dispatched ArgName fkCmdEval work _ args nonempty notEval
      ok timed.holds
    rw [called] at dispatched
    cases dispatched with
    | done other queued leaves =>
        rw [ran] at other
        cases other
        obtain ⟨space, known⟩ := queued_of_ok queued
        exact known.wire_iff carries counted

end Fetching

/-- A new client of a server with one string. -/
def storedWork (value : Bytes) : Work :=
  ⟨(fkSvrInit 1 false (fun _ => 0) (fun _ => 0)).setDb 0
    (fkDictAdd dbDictEop fkDictCreate (ascii "k") (.str value)).2,
    (fkConnCreate .real 1024).toFkConnOut⟩

theorem storedWork_ok {value : Bytes} (fits : value.length ≤ fkArgHighwat) :
    SvrOk ArgName (storedWork value).svr :=
  SvrOk.setDb (fkSystemInit_ok 1 false (fun _ => 0) (fun _ => 0))
    (fkDictCreate_ok.add (by decide : (ascii "k").length ≤ fkArgHighwat) fits)

/-- A call that was seen to succeed. -/
theorem ok_of_returned {outcome : Outcome Work Unit} {bytes : Bytes}
    (ran : (returned outcome).map (fun result => (result.1, result.2.out.wbuf.payload)) = some
      (.ok, bytes)) :
    ∃ after, outcome = .ok () after ∧ after.out.wbuf.payload = bytes := by
  cases outcome with
  | ok value after =>
      cases ran
      exact ⟨after, rfl, rfl⟩
  | err after => cases ran
  | fault => cases ran

theorem fkConnAddContentRsp_binary_get :
    ∃ after, procArgs (fun _ => Act.fault) [ascii "GET", ascii "k"] (storedWork (ascii "v")) =
      .ok () after ∧ after.out.wbuf.payload = (storedWork (ascii "v")).out.wbuf.payload ++ encArg
        (ascii "v") := by
  have timed := fkSvrInit_timed 1 false (fun _ => 0) (fun _ => 0)
  have stored : (storedWork (ascii "v")).string? (ascii "k") = some (ascii "v") := by decide +kernel
  obtain ⟨after, called, _⟩ := @ok_of_returned
    (procArgs (fun _ => Act.fault) [ascii "GET", ascii "k"] (storedWork (ascii "v")))
      (ascii "$1\r\nv\r\n")
    (by decide +kernel)
  have fetches : Fetches (storedWork (ascii "v")) [ascii "GET", ascii "k"] (.bulk (ascii "v")) := by
    refine .get (by decide) ?_ stored
    intro deadline held
    rw [show (storedWork (ascii "v")).svr.expdb _ = fkDictCreate from rfl, fkDictCreate,
      fkDictGet_init dbDictEop_lawful] at held
    cases held
  exact ⟨after, called, ((fkConnAddContentRsp_binary_iff (storedWork_ok (by decide)) timed).2 _ _
    fetches (by decide) called).mpr (List.forall_mem_singleton.mpr (by decide))⟩

/-- The content `a`, zero, `b` ends after its first byte. -/
theorem fkConnAddContentRsp_cuts_zero :
    (∃ after, addBulkAndContent [97, 0, 98] (storedWork [97, 0, 98]) = .ok () after ∧
      after.out.wbuf.payload ≠ (storedWork [97, 0, 98]).out.wbuf.payload ++ encArg [97, 0, 98]) ∧
    ∃ after, procArgs (fun _ => Act.fault) [ascii "GET", ascii "k"] (storedWork [97, 0, 98]) =
      .ok () after ∧ after.out.wbuf.payload ≠ (storedWork [97, 0, 98]).out.wbuf.payload ++ encArg
        [97, 0, 98] := by
  obtain ⟨first, sent, bytes⟩ :=
    @ok_of_returned (addBulkAndContent [97, 0, 98] (storedWork [97, 0, 98]))
      [36, 51, 13, 10, 97, 13, 10, 0, 0] (by decide +kernel)
  obtain ⟨second, called, same⟩ := @ok_of_returned
    (procArgs (fun _ => Act.fault) [ascii "GET", ascii "k"] (storedWork [97, 0, 98]))
    [36, 51, 13, 10, 97, 13, 10, 0, 0] (by decide +kernel)
  refine ⟨⟨first, sent, ?_⟩, second, called, ?_⟩
  · rw [bytes]
    decide +kernel
  · rw [same]
    decide +kernel

end Freekick
