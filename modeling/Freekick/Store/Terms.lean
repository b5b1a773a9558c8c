import Freekick.Store.Isolation
import Freekick.Store.Simulation

/-!
# What a reply term can hold

The requests that are parsed are small, and so is everything that was stored.  Every reply
term therefore has small numbers, short values and one of the few messages, its calls always
fit a buffer that has room, and what they print is the term itself unless a value holds a
zero byte.
-/

namespace Freekick

open Lib.Decimal

/-! ## Requests that are parsed -/

theorem Admissible.admitted {args : List Bytes} (admissible : Admissible args)
    (notEval : fkStr2upper (args.headD []) ≠ ascii "EVAL") : Admitted args where
  nonempty := by
    rintro rfl
    exact absurd admissible.pos (by decide)
  count := admissible.cnt
  fits := admissible.lens
  notEval := notEval

theorem Admitted.admissible {args : List Bytes} (admitted : Admitted args) : Admissible args where
  pos := List.length_pos_iff.mpr admitted.nonempty
  cnt := admitted.count
  lens := admitted.fits

/-! ## Values that were stored -/

/-- No part of the value is longer than an argument. -/
def Value.Brief : Value → Prop
  | .str bytes => bytes.length ≤ fkArgHighwat
  | .list nodes => ∀ node ∈ nodes, node.length ≤ fkArgHighwat
  | .hash fields => ∀ field bytes, fields field = some bytes → bytes.length ≤ fkArgHighwat
  | .sklist => True
  | .num _ => True

def Keyspace.Brief (space : Keyspace) : Prop :=
  ∀ key value, space.values key = some value → value.Brief

theorem FkItem.Ok.brief {good : Bytes → Prop} {item : FkItem} (ok : item.Ok good) :
    item.value.Brief := by
  cases item with
  | str bytes => exact ok
  | list nodes => exact ok
  | dict fields => exact fun field bytes held => (ok.2 field bytes held).2
  | sklist => exact ok.elim
  | num number => trivial

theorem SvrOk.brief {good : Bytes → Prop} {svr : FkSvr} (ok : SvrOk good svr) (idx : Nat) :
    (svr.spaces idx).Brief := by
  intro key value held
  obtain ⟨item, found, rfl⟩ := Option.map_eq_some_iff.mp held
  exact ((ok false idx).held key item found).2.brief

section Found

variable {space : Keyspace} {clock : Nat → Int}

theorem Keyspace.Brief.look (brief : space.Brief) (key : Bytes) :
    (∀ value, (space.look clock key).found = some value → value.Brief) ∧
      (space.look clock key).left.Brief := by
  unfold Keyspace.look
  cases space.deadlines key with
  | none => exact ⟨brief key, brief⟩
  | some deadline =>
      dsimp only
      split
      · refine ⟨nofun, fun other value held => ?_⟩
        change Function.update space.values key none other = some value at held
        by_cases same : other = key
        · rw [same, Function.update_self] at held
          cases held
        · rw [Function.update_of_ne same] at held
          exact brief other value held
      · exact ⟨brief key, brief⟩

theorem Keyspace.Brief.lookAll (brief : space.Brief) (keys : List Bytes) :
    ∀ value, some value ∈ (space.lookAll clock keys).found → value.Brief := by
  induction keys generalizing clock space with
  | nil => nofun
  | cons key rest ih =>
      intro value member
      obtain ⟨found, left⟩ := @Keyspace.Brief.look space clock brief key
      rcases List.mem_cons.mp member with here | later
      · exact found value here.symm
      · exact ih left value later

/-- What a command takes from the database is short. -/
theorem Cmd.fetched_brief (brief : space.Brief) (cmd : Cmd) :
    ∀ bytes ∈ cmd.fetched clock space, bytes.length ≤ fkArgHighwat := by
  intro bytes member
  cases cmd with
  | get key =>
      obtain ⟨value, found, same⟩ := Option.bind_eq_some_iff.mp (Option.mem_toList.mp member)
      have short := (brief.look key).1 value found
      cases value with
      | str text =>
          cases same
          exact short
      | _ => cases same
  | mget keys =>
      obtain ⟨found, inside, same⟩ := List.mem_map.mp (List.reduceOption_mem_iff.mp member)
      obtain ⟨value, rfl, known⟩ := Option.bind_eq_some_iff.mp same
      have short := brief.lookAll keys value inside
      cases value with
      | str text =>
          cases known
          exact short
      | _ => cases known
  | hget hkey key =>
      rw [fetched] at member
      split at member
      · next fields held => exact brief hkey _ held key bytes (Option.mem_toList.mp member)
      · cases member
  | pop pos key =>
      rw [fetched] at member
      split at member
      · next nodes held => exact brief key _ held bytes (node?_mem (Option.mem_toList.mp member))
      · cases member
  | _ => cases member

end Found

/-! ## Numbers and counts -/

/-- How many arguments of the request a reply can count. -/
def Cmd.breadth : Cmd → Nat
  | .zadd _ count => count
  | cmd => cmd.width

theorem Asks.breadth {name : Bytes} {rest : List Bytes} {cmd : Cmd} (asks : Asks name rest cmd) :
    cmd.breadth ≤ rest.length := by
  have width := asks.width
  cases asks with
  | zadd => exact Nat.le_succ _
  | _ => exact width

/-- A term that a parsed request can be answered with. -/
structure Reply.Fits (reply : Reply) : Prop where
  values : ∀ value ∈ reply.values, value.length ≤ fkArgHighwat
  items : ∀ items, reply = .multi items → items.length ≤ fkArgCntHighwat
  number : ∀ num, reply = .int num → -2 ^ 31 ≤ num ∧ num < 2 ^ 31
  message : ∀ message, reply = .status message ∨ reply = .error message → message ∈ messages

theorem small_number {count : Nat} (small : count ≤ fkArgCntHighwat) :
    -2 ^ 31 ≤ (count : Int) ∧ (count : Int) < 2 ^ 31 := by
  have limit : fkArgCntHighwat < 2 ^ 31 := by decide
  omega

/-- A number that a command answers is an `int`. -/
theorem Cmd.run_number {dbcnt : Nat} {clock : Nat → Int} {space : Keyspace} {cmd : Cmd}
    {answer : Answer} {num : Int} (breadth : cmd.breadth ≤ fkArgCntHighwat)
    (ran : cmd.run dbcnt clock space = some answer) (number : answer.reply = .int num) :
    -2 ^ 31 ≤ num ∧ num < 2 ^ 31 := by
  cases cmd with
  | setnx key value =>
      rw [run] at ran
      split at ran
      · cases ran
        cases number
        decide
      · cases ran
        cases number
        decide
  | get key =>
      cases ran
      dsimp only at number
      unfold getReply at number
      split at number <;> cases number
  | del keys =>
      cases ran
      cases number
      refine small_number (Nat.le_trans ?_ breadth)
      exact Nat.le_trans (Finset.card_filter_le _ _) (List.toFinset_card_le keys)
  | existing key =>
      cases ran
      cases number
      split <;> decide
  | hset hkey key value =>
      rw [run] at ran
      split at ran
      · cases ran
        cases number
        decide
      · cases ran
        cases number
        decide
      · cases ran
        cases number
  | hget hkey key =>
      cases ran
      dsimp only at number
      unfold hgetReply at number
      split at number
      · cases number
      · split at number <;> cases number
      · cases number
  | push pos key nodes =>
      rw [run] at ran
      split at ran
      · cases ran
        cases number
        exact small_number breadth
      · cases ran
        cases number
        exact small_number breadth
      · cases ran
        cases number
  | pop pos key =>
      rw [run] at ran
      split at ran
      · cases ran
        cases number
      · split at ran
        · cases ran
          cases number
        · cases ran
          cases number
      · cases ran
        cases number
  | llen key =>
      cases ran
      dsimp only at number
      unfold llenReply at number
      split at number
      · cases number
        decide
      · rw [← Reply.int.inj number]
        exact toInt32_bounds _
      · cases number
  | select text =>
      cases ran
      dsimp only at number
      split at number <;> cases number
  | zadd key count =>
      rw [run] at ran
      split at ran
      · cases ran
      · cases ran
        dsimp only at number
        split at number
        · cases number
        · cases number
          exact small_number (Nat.le_trans (Nat.div_le_self _ _) breadth)
  | _ =>
      cases ran
      cases number

theorem Cmd.run_items {dbcnt : Nat} {clock : Nat → Int} {space : Keyspace} {cmd : Cmd}
    {answer : Answer} {items : List (Option Bytes)}
    (ran : cmd.run dbcnt clock space = some answer) (multi : answer.reply = .multi items) :
    items.length = cmd.breadth := by
  cases cmd with
  | mget keys =>
      cases ran
      cases multi
      rw [List.length_map]
      exact lookAll_length clock keys space
  | setnx key value =>
      rw [run] at ran
      split at ran <;> cases ran <;> cases multi
  | get key =>
      cases ran
      dsimp only at multi
      unfold getReply at multi
      split at multi <;> cases multi
  | hset hkey key value =>
      rw [run] at ran
      split at ran <;> cases ran <;> cases multi
  | hget hkey key =>
      cases ran
      dsimp only at multi
      unfold hgetReply at multi
      split at multi
      · cases multi
      · split at multi <;> cases multi
      · cases multi
  | push pos key nodes =>
      rw [run] at ran
      split at ran <;> cases ran <;> cases multi
  | pop pos key =>
      rw [run] at ran
      split at ran
      · cases ran
        cases multi
      · split at ran <;> cases ran <;> cases multi
      · cases ran
        cases multi
  | llen key =>
      cases ran
      dsimp only at multi
      unfold llenReply at multi
      split at multi <;> cases multi
  | select text =>
      cases ran
      dsimp only at multi
      split at multi <;> cases multi
  | zadd key count =>
      rw [run] at ran
      split at ran
      · cases ran
      · cases ran
        dsimp only at multi
        split at multi <;> cases multi
  | _ =>
      cases ran
      cases multi

/-- The answer to a parsed request, whatever is stored. -/
theorem Admissible.fits {good : Bytes → Prop} {work : Work} {args : List Bytes} {answer : Answer}
    (admissible : Admissible args) (ok : SvrOk good work.svr)
    (ran : work.answer work.svr.spaces (cmdOf args) = some answer) : answer.reply.Fits := by
  have tells := Cmd.run_tells (cmdOf_refused args) ran
  have breadth : (cmdOf args).breadth ≤ fkArgCntHighwat := by
    refine Nat.le_trans (cmdOf_asks args).breadth (Nat.le_trans ?_ admissible.cnt)
    rw [List.length_tail]
    exact Nat.sub_le _ _
  refine ⟨?_, ?_, ?_, tells.message⟩
  · rw [tells.values]
    exact Cmd.fetched_brief (ok.brief work.out.dbIdx) (cmdOf args)
  · intro items multi
    rw [Cmd.run_items ran multi]
    exact breadth
  · intro num number
    exact Cmd.run_number breadth ran number

/-! ## The calls of a term -/

namespace Reply.Fits

variable {reply : Reply}

theorem counted (fits : reply.Fits) : reply.Counted where
  values := fun value member => Nat.lt_of_le_of_lt (fits.values value member) (by decide)
  items := fun items multi => Nat.lt_of_le_of_lt (fits.items items multi) (by decide)

/-- No call asks for much. -/
theorem calls_len (fits : reply.Fits) : ∀ rsp ∈ reply.calls, rsp.len ≤ fkArgHighwat + 2 := by
  have numbers : ∀ number, fkUtilDecimalDigit (toInt32 number) + 3 ≤ fkArgHighwat + 2 :=
    fun number =>
      Nat.le_trans (Nat.add_le_add_right (fkUtilDecimalDigit_le number) 3) (by decide)
  have said : ∀ message ∈ messages, message.length + 3 ≤ fkArgHighwat + 2 := by decide
  have bulk : ∀ item : Option Bytes, (∀ value ∈ item, value.length ≤ fkArgHighwat) →
      ∀ rsp ∈ bulkCalls item, rsp.len ≤ fkArgHighwat + 2 := by
    intro item short
    cases item with
    | none => exact List.forall_mem_singleton.mpr (numbers _)
    | some bytes =>
        refine List.forall_mem_cons.mpr ⟨numbers _, List.forall_mem_singleton.mpr ?_⟩
        exact Nat.add_le_add_right (short bytes rfl) 2
  cases reply with
  | status stat => exact List.forall_mem_singleton.mpr (said stat (fits.message stat (.inl rfl)))
  | error message =>
      exact List.forall_mem_singleton.mpr (said message (fits.message message (.inr rfl)))
  | int num => exact List.forall_mem_singleton.mpr (numbers num)
  | nil => exact bulk none nofun
  | bulk bytes =>
      exact bulk (some bytes) fun value same =>
        fits.values value (List.mem_singleton.mpr (Option.mem_some.mp same).symm)
  | multi items =>
      refine List.forall_mem_cons.mpr
        ⟨numbers _, List.forall_mem_flatMap.mpr fun item member => bulk item fun value same => ?_⟩
      rw [Option.mem_def.mp same] at member
      exact fits.values value (List.reduceOption_mem_iff.mpr member)

/-- What the calls print is the term. -/
theorem queued_wire (fits : reply.Fits) (junk : Nat → UInt8)
    (free : ∀ value ∈ reply.values, (0 : UInt8) ∉ value) :
    reply.queued junk = reply.wire := by
  have clean : ∀ message ∈ messages, (0 : UInt8) ∉ message := by decide
  have carried : reply.Carries → reply.queued junk = reply.wire := by
    intro carries
    rw [Reply.queued, ← Reply.calls_wire carries fits.counted]
    exact List.flatMap_congr fun rsp member =>
      (Rsp.printed_iff junk rsp).mpr ((Reply.calls_zeroFree carries).mpr free rsp member)
  have single : ∀ rsp : Rsp, reply.calls = [rsp] → (0 : UInt8) ∉ rsp.bytes →
      reply.queued junk = rsp.wire := by
    intro rsp calls zero
    rw [Reply.queued, calls, List.flatMap_singleton]
    exact (Rsp.printed_iff junk rsp).mpr zero
  cases reply with
  | status stat => exact single _ rfl (clean stat (fits.message stat (.inl rfl)))
  | error message => exact single _ rfl (clean message (fits.message message (.inr rfl)))
  | int num =>
      refine (single _ rfl List.not_mem_nil).trans ?_
      obtain ⟨least, most⟩ := fits.number num rfl
      rw [Rsp.wire, show toInt32 num = num from Int.bmod_eq_of_le (by omega) (by omega)]
      rfl
  | nil =>
      refine (single _ rfl List.not_mem_nil).trans ?_
      decide
  | bulk bytes => exact carried trivial
  | multi items => exact carried trivial

end Reply.Fits

end Freekick
