import Freekick.Store.OneKey
import Freekick.Store.Runs
import Freekick.Store.Wire

/-!
# Expired keys

At an instant a key whose deadline is over should be absent for every command.  `GET`
and `MGET` look at the deadline; the other commands find the key as long as nothing
removed it.  For each of them this is told exactly: a command agrees with itself on the
server without the key when it heeds the key.
-/

namespace Freekick

open Lib.Call Lib.Decimal

/-! ## What is live at an instant -/

namespace Keyspace

/-- The deadline of the key is over. -/
def expired (space : Keyspace) (now : Int) (key : Bytes) : Bool :=
  (space.deadlines key).any fun deadline => deadline < now

/-- The keyspace without the keys that are expired. -/
def live (now : Int) (space : Keyspace) : Keyspace where
  values := fun key => if space.expired now key then none else space.values key
  deadlines := fun key => if space.expired now key then none else space.deadlines key

/-- The keyspace with the expired key or without it. -/
def Shadow (now : Int) (key : Bytes) (space second : Keyspace) : Prop :=
  second = space ∨ (space.expired now key = true ∧ second = space.remove key)

variable {space second : Keyspace} {now : Int} {key other : Bytes}

@[simp]
theorem remove_values_self : (space.remove key).values key = none := Function.update_self ..

@[simp]
theorem remove_deadlines_self : (space.remove key).deadlines key = none := Function.update_self ..

theorem remove_values_of_ne (apart : other ≠ key) :
    (space.remove key).values other = space.values other :=
  Function.update_of_ne apart ..

theorem remove_deadlines_of_ne (apart : other ≠ key) :
    (space.remove key).deadlines other = space.deadlines other :=
  Function.update_of_ne apart ..

theorem expired_congr (same : second.deadlines key = space.deadlines key) :
    second.expired now key = space.expired now key := by
  unfold expired
  rw [same]

@[simp]
theorem expired_remove : (space.remove key).expired now key = false := by
  unfold expired
  rw [remove_deadlines_self]
  rfl

theorem live_remove (overdue : space.expired now key = true) :
    (space.remove key).live now = space.live now := by
  have each : ∀ other, ((space.remove key).live now).values other = (space.live now).values other ∧
      ((space.remove key).live now).deadlines other = (space.live now).deadlines other := by
    intro other
    unfold live
    dsimp only
    by_cases same : other = key
    · subst same
      rw [expired_remove, overdue, remove_values_self, remove_deadlines_self]
      exact ⟨rfl, rfl⟩
    · rw [expired_congr (remove_deadlines_of_ne same), remove_values_of_ne same,
        remove_deadlines_of_ne same]
      exact ⟨rfl, rfl⟩
  exact Keyspace.ext (funext fun other => (each other).1) (funext fun other => (each other).2)

theorem Shadow.live (shadow : Shadow now key space second) : second.live now = space.live now := by
  rcases shadow with rfl | ⟨overdue, rfl⟩
  · rfl
  · exact live_remove overdue

/-- What is stored under an expired key is not live, what is stored without a deadline is. -/
theorem live_ne (overdue : space.expired now key = true) (stored : (second.values key).isSome)
    (untimed : second.deadlines key = none) : space.live now ≠ second.live now := by
  intro same
  have absent : (space.live now).values key = none := if_pos overdue
  have kept : second.expired now key = false := by
    unfold expired
    rw [untimed]
    rfl
  rw [same] at absent
  change (if second.expired now key then none else second.values key) = none at absent
  rw [kept] at absent
  rw [show second.values key = none from absent] at stored
  cases stored

/-- A write to another key. -/
theorem shadow_put (overdue : space.expired now key = true) (apart : other ≠ key) (value : Value) :
    Shadow now key (space.put other value) ((space.remove key).put other value) :=
  .inr ⟨overdue, Keyspace.ext (Function.update_comm (Ne.symm apart) ..) rfl⟩

theorem drop_remove (keys : List Bytes) :
    (space.remove key).drop keys = (space.drop keys).remove key := by
  refine Keyspace.ext (funext fun wanted => ?_) rfl
  by_cases same : wanted = key
  · subst same
    rw [remove_values_self]
    change (if wanted ∈ keys then none else (space.remove wanted).values wanted) = none
    rw [remove_values_self, ite_self]
  · rw [remove_values_of_ne same]
    change (if wanted ∈ keys then none else (space.remove key).values wanted) = _
    rw [remove_values_of_ne same]
    rfl

/-- How many keys are present without the key. -/
theorem present_erase (keys : List Bytes) : (space.remove key).present keys =
    ((keys.toFinset.filter fun other => (space.values other).isSome).erase key).card := by
  unfold present
  congr 1
  ext other
  rw [Finset.mem_filter, Finset.mem_erase, Finset.mem_filter]
  by_cases same : other = key
  · subst same
    rw [remove_values_self]
    exact iff_of_false (fun both => absurd both.2 (by decide)) fun both => both.1 rfl
  · rw [remove_values_of_ne same]
    exact (and_iff_right same).symm

theorem present_remove {keys : List Bytes} (named : key ∈ keys)
    (stored : (space.values key).isSome) :
    space.present keys = (space.remove key).present keys + 1 := by
  rw [present_erase]
  exact (Finset.card_erase_add_one
    (Finset.mem_filter.mpr ⟨List.mem_toFinset.mpr named, stored⟩)).symm

theorem present_remove_of_not {keys : List Bytes}
    (absent : ¬ (key ∈ keys ∧ (space.values key).isSome)) :
    (space.remove key).present keys = space.present keys := by
  rw [present_erase, Finset.erase_eq_of_notMem]
  · rfl
  · rw [Finset.mem_filter, List.mem_toFinset]
    exact absent

/-! ## Looks -/

theorem look_eq (space : Keyspace) (now : Int) (key : Bytes) :
    (space.look (fun _ => now) key).found =
        (if space.expired now key then none else space.values key) ∧
      (space.look (fun _ => now) key).left =
        if space.expired now key then space.remove key else space := by
  unfold look expired
  cases space.deadlines key with
  | none => exact ⟨rfl, rfl⟩
  | some deadline =>
      by_cases overdue : deadline < now
      · simp only [Option.any_some, overdue, if_true, decide_true, and_self]
      · simp only [Option.any_some, overdue, if_false, decide_false, Bool.false_eq_true, and_self]

theorem remove_comm (space : Keyspace) (key other : Bytes) :
    (space.remove key).remove other = (space.remove other).remove key := by
  by_cases same : key = other
  · subst same
    rfl
  · exact Keyspace.ext (Function.update_comm same ..) (Function.update_comm same ..)

theorem Shadow.look (shadow : Shadow now key space second) (other : Bytes) :
    (second.look (fun _ => now) other).found = (space.look (fun _ => now) other).found ∧
      Shadow now key (space.look (fun _ => now) other).left
        (second.look (fun _ => now) other).left := by
  rcases shadow with rfl | ⟨overdue, rfl⟩
  · exact ⟨rfl, .inl rfl⟩
  · rw [(look_eq _ now other).1, (look_eq _ now other).1, (look_eq _ now other).2,
      (look_eq _ now other).2]
    by_cases same : other = key
    · subst same
      rw [expired_remove, overdue, remove_values_self]
      exact ⟨rfl, .inl rfl⟩
    · rw [expired_congr (remove_deadlines_of_ne same), remove_values_of_ne same]
      refine ⟨rfl, .inr ?_⟩
      split
      · rw [expired_congr (remove_deadlines_of_ne (Ne.symm same))]
        exact ⟨overdue, remove_comm space key other⟩
      · exact ⟨overdue, rfl⟩

theorem Shadow.lookAll (shadow : Shadow now key space second) (keys : List Bytes) :
    (second.lookAll (fun _ => now) keys).found = (space.lookAll (fun _ => now) keys).found ∧
      Shadow now key (space.lookAll (fun _ => now) keys).left
        (second.lookAll (fun _ => now) keys).left := by
  induction keys generalizing space second with
  | nil => exact ⟨rfl, shadow⟩
  | cons other rest ih =>
      obtain ⟨found, left⟩ := shadow.look other
      obtain ⟨all, last⟩ := ih left
      exact ⟨congrArg₂ List.cons found all, last⟩

end Keyspace

/-! ## Replies that differ -/

section Differ

variable {junk : Nat → UInt8} {first second : Int}

theorem signedDecimal_injective (same : signedDecimal first = signedDecimal second) :
    first = second := by
  have head : ∀ number : Nat, (decimal number).head? ≠ some 45 := by
    intro number minus
    have digit := decimal_digits number 45 (List.mem_of_mem_head? minus)
    cases digit
  unfold signedDecimal at same
  split at same <;> split at same
  · have absolute := decimal_injective (List.cons.inj same).2
    omega
  · exact absurd (congrArg List.head? same).symm (head _)
  · exact absurd (congrArg List.head? same) (head _)
  · have absolute := decimal_injective same
    omega

theorem toInt32_succ_ne (count : Nat) : toInt32 (count + 1 : Nat) ≠ toInt32 count := by
  unfold toInt32
  rw [Int.bmod_def, Int.bmod_def]
  split <;> split <;> omega

theorem queued_int (num : Int) :
    (Reply.int num).queued junk = 58 :: (signedDecimal (toInt32 num) ++ crlf) := by
  unfold Reply.queued Reply.calls
  rw [List.flatMap_cons, List.flatMap_nil, List.append_nil]
  exact (Rsp.printed_iff junk (.int num)).mpr List.not_mem_nil

theorem queued_nil : Reply.nil.queued junk = ascii "$-1\r\n" := by
  change [Rsp.bulk fkRspNil].flatMap _ = _
  rw [List.flatMap_cons, List.flatMap_nil, List.append_nil]
  exact ((Rsp.printed_iff junk (.bulk fkRspNil)).mpr List.not_mem_nil).trans (by decide +kernel)

theorem queued_typeErr : (Reply.error fkRspTypeErr).queued junk = ascii "-Type Error\r\n" := by
  unfold Reply.queued Reply.calls
  rw [List.flatMap_cons, List.flatMap_nil, List.append_nil]
  exact ((Rsp.printed_iff junk (.error fkRspTypeErr)).mpr (by decide)).trans (by decide +kernel)

theorem queued_int_injective
    (same : (Reply.int first).queued junk = (Reply.int second).queued junk) :
    toInt32 first = toInt32 second := by
  rw [queued_int, queued_int] at same
  exact signedDecimal_injective (List.append_cancel_right (List.cons.inj same).2)

theorem queued_typeErr_ne_int :
    (Reply.error fkRspTypeErr).queued junk ≠ (Reply.int first).queued junk := by
  rw [queued_typeErr, queued_int]
  intro same
  have head : (ascii "-Type Error\r\n").head? = some 58 := congrArg List.head? same
  exact absurd head (by decide)

theorem queued_typeErr_ne_nil : (Reply.error fkRspTypeErr).queued junk ≠ Reply.nil.queued junk := by
  rw [queued_typeErr, queued_nil]
  decide

/-- A content makes the reply longer than the null reply. -/
theorem queued_bulk_ne_nil (bytes : Bytes) :
    (Reply.bulk bytes).queued junk ≠ Reply.nil.queued junk := by
  intro same
  have lengths := congrArg List.length same
  have digits : 1 ≤ fkUtilDecimalDigit (toInt32 bytes.length) := by
    unfold fkUtilDecimalDigit
    have some := List.length_pos_iff.mpr (decimal_ne_nil (toInt32 bytes.length).natAbs)
    omega
  have wide : (ascii "$-1\r\n").length = 5 := by decide
  rw [queued_nil, wide, Reply.queued] at lengths
  simp only [Reply.calls, bulkCalls, List.flatMap_cons, List.flatMap_nil, List.append_nil,
    List.length_append, length_printed, Rsp.len] at lengths
  omega

end Differ

/-- `LLEN` answers as on no key. -/
theorem llenReply_iff {found : Option Value} :
    (llenReply found).queued junk = (llenReply none).queued junk ↔
    ∀ value, found = some value → ∃ nodes, value = .list nodes ∧ toInt32 nodes.length = 0 := by
  cases found with
  | none => exact iff_of_true rfl nofun
  | some value =>
      cases value with
      | list nodes =>
          constructor
          · intro same other held
            cases held
            have numbers := queued_int_injective same
            rw [toInt32_toInt32] at numbers
            exact ⟨nodes, rfl, numbers⟩
          · intro heeds
            obtain ⟨others, held, empty⟩ := heeds _ rfl
            cases held
            change (Reply.int (toInt32 nodes.length)).queued junk = _
            rw [empty]
            rfl
      | _ =>
          refine iff_of_false queued_typeErr_ne_int fun heeds => ?_
          obtain ⟨nodes, held, _⟩ := heeds _ rfl
          cases held

/-- `HGET` answers as on no key. -/
theorem hgetReply_iff {field : Bytes} {found : Option Value} :
    (hgetReply field found).queued junk = (hgetReply field none).queued junk ↔
      ∀ value, found = some value → ∃ fields, value = .hash fields ∧ fields field = none := by
  cases found with
  | none => exact iff_of_true rfl nofun
  | some value =>
      cases value with
      | hash fields =>
          cases held : fields field with
          | none =>
              have reply : hgetReply field (some (.hash fields)) = .nil :=
                by simp only [hgetReply, held]
              rw [reply]
              exact iff_of_true rfl fun value found => ⟨fields, (Option.some.inj found).symm, held⟩
          | some bytes =>
              have reply : hgetReply field (some (.hash fields)) = .bulk bytes :=
                by simp only [hgetReply, held]
              rw [reply]
              refine iff_of_false (queued_bulk_ne_nil bytes) fun heeds => ?_
              obtain ⟨others, same, absent⟩ := heeds _ rfl
              cases same
              rw [held] at absent
              cases absent
      | _ =>
          refine iff_of_false queued_typeErr_ne_nil fun heeds => ?_
          obtain ⟨fields, held, _⟩ := heeds _ rfl
          cases held

theorem ListPos.node?_eq_none {pos : ListPos} {nodes : List Bytes}
    (empty : pos.node? nodes = none) : nodes = [] := by
  cases pos with
  | head => exact List.head?_eq_none_iff.mp empty
  | tail => exact List.getLast?_eq_none_iff.mp empty

/-! ## Which commands heed an expired key -/

namespace Cmd

/-- The command answers on the stored key as on none. -/
def Heeds (space : Keyspace) (key : Bytes) : Cmd → Prop
  | .existing other => other = key → space.values key = none
  | .del keys => key ∈ keys → space.values key = none
  | .llen other => other = key → ∀ value, space.values key = some value →
      ∃ nodes, value = .list nodes ∧ toInt32 nodes.length = 0
  | .pop _ other => other = key → ∀ value, space.values key = some value → value = .list []
  | .hget other field => other = key → ∀ value, space.values key = some value →
      ∃ fields, value = .hash fields ∧ fields field = none
  | .setnx other _ => other ≠ key
  | .push _ other _ => other ≠ key
  | .hset other _ _ => other ≠ key
  | _ => True

/-- The commands that should take an expired key for absent, and requests that are refused. -/
def Minds : Cmd → Prop
  | .get _ | .mget _ | .existing _ | .setnx _ _ | .del _ | .llen _ | .push _ _ _ | .pop _ _ |
    .hset _ _ _ | .hget _ _
  | .refused _ => True
  | _ => False

/-- The answers are the same bytes, and what is left is the same at the instant. -/
structure Alike (junk : Nat → UInt8) (now : Int) (first second : Answer) : Prop where
  reply : first.reply.queued junk = second.reply.queued junk
  live : first.space.live now = second.space.live now

variable {junk : Nat → UInt8} {now : Int} {dbcnt : Nat} {space : Keyspace} {key : Bytes} {cmd : Cmd}
  {first second : Answer}

theorem alike_of_eq {reply other : Reply} {readings more : Nat} {left right : Keyspace}
    (same : other = reply) (shadow : Keyspace.Shadow now key left right) :
    Alike junk now ⟨reply, left, readings⟩ ⟨other, right, more⟩ :=
  ⟨by rw [same], shadow.live.symm⟩

/-- A command that writes nothing is alike when the replies are. -/
theorem alike_iff_reply {reply other : Reply} (overdue : space.expired now key = true) :
    Alike junk now ⟨reply, space, 0⟩ ⟨other, space.remove key, 0⟩ ↔
      reply.queued junk = other.queued junk :=
  ⟨Alike.reply, fun same => ⟨same, (Keyspace.live_remove overdue).symm⟩⟩

/-- A command that writes the key leaves a live key on one side only. -/
theorem not_alike_of_write (overdue : first.space.expired now key = true)
    (stored : (second.space.values key).isSome) (untimed : second.space.deadlines key = none) :
    ¬ Alike junk now first second :=
  fun alike => Keyspace.live_ne overdue stored untimed alike.live

section Heed

variable (overdue : space.expired now key = true)
include overdue

/-- A command on one other key. -/
theorem alike_elsewhere {other : Bytes} {act : Option Value → Reply × Option Value}
    (acts : cmd.Acts other act) (apart : other ≠ key)
    (ran : cmd.run dbcnt (fun _ => now) space = some first)
    (ran' : cmd.run dbcnt (fun _ => now) (space.remove key) = some second) :
    Alike junk now first second := by
  rw [acts.run] at ran ran'
  rw [Keyspace.remove_values_of_ne apart] at ran'
  cases ran
  cases ran'
  refine @alike_of_eq _ _ key _ _ _ _ _ _ rfl ?_
  cases (act (space.values other)).2 with
  | none => exact .inr ⟨overdue, rfl⟩
  | some value => exact Keyspace.shadow_put overdue apart value

/-- A command that creates the key where it does not find it. -/
theorem heeds_creator {other : Bytes} {act : Option Value → Reply × Option Value} {value : Value}
    (acts : cmd.Acts other act) (creates : (act none).2 = some value)
    (ran : cmd.run dbcnt (fun _ => now) space = some first)
    (ran' : cmd.run dbcnt (fun _ => now) (space.remove key) = some second) :
    Alike junk now first second ↔ other ≠ key := by
  by_cases same : other = key
  · subst same
    rw [acts.run] at ran ran'
    rw [Keyspace.remove_values_self, creates] at ran'
    cases ran
    cases ran'
    refine iff_of_false (not_alike_of_write ?_ ?_ Keyspace.remove_deadlines_self)
      fun apart => apart rfl
    · rw [← overdue]
      exact Keyspace.expired_congr (congrFun (Keyspace.write_deadlines ..) _)
    · exact Option.isSome_iff_exists.mpr ⟨_, Function.update_self ..⟩
  · exact iff_of_true (alike_elsewhere overdue acts same ran ran') same

/-- A command that only answers. -/
theorem heeds_reader {other : Bytes} {reply : Option Value → Reply}
    (acts : cmd.Acts other fun found => (reply found, none))
    (ran : cmd.run dbcnt (fun _ => now) space = some first)
    (ran' : cmd.run dbcnt (fun _ => now) (space.remove key) = some second) :
    Alike junk now first second ↔
      (other = key → (reply (space.values key)).queued junk = (reply none).queued junk) := by
  by_cases same : other = key
  · subst same
    rw [acts.run] at ran ran'
    rw [Keyspace.remove_values_self] at ran'
    cases ran
    cases ran'
    exact (alike_iff_reply overdue).trans ⟨fun found _ => found, fun found => found rfl⟩
  · exact iff_of_true (alike_elsewhere overdue acts same ran ran') fun again => absurd again same

theorem heeds_del (keys : List Bytes)
    (ran : run dbcnt (fun _ => now) space (.del keys) = some first)
    (ran' : run dbcnt (fun _ => now) (space.remove key) (.del keys) = some second) :
    Alike junk now first second ↔ Heeds space key (.del keys) := by
  cases ran
  cases ran'
  rw [Keyspace.drop_remove]
  have live := Keyspace.live_remove (show (space.drop keys).expired now key = true from overdue)
  have replies : Alike junk now ⟨.int (space.present keys), space.drop keys, 0⟩
      ⟨.int ((space.remove key).present keys), (space.drop keys).remove key, 0⟩ ↔
      (Reply.int (space.present keys)).queued junk =
        (Reply.int ((space.remove key).present keys)).queued junk :=
    ⟨Alike.reply, fun same => ⟨same, live.symm⟩⟩
  rw [replies]
  by_cases counted : key ∈ keys ∧ (space.values key).isSome
  · refine iff_of_false (fun same => ?_) fun heeds => ?_
    · have count := queued_int_injective same
      rw [Keyspace.present_remove counted.1 counted.2] at count
      exact toInt32_succ_ne _ count
    · rw [heeds counted.1] at counted
      cases counted.2
  · rw [Keyspace.present_remove_of_not counted]
    refine iff_of_true rfl fun named => ?_
    exact Option.not_isSome_iff_eq_none.mp fun present => counted ⟨named, present⟩

/-- A pop of the key itself. -/
theorem heeds_pop_self {pos : ListPos}
    (ran : run dbcnt (fun _ => now) space (.pop pos key) = some first) :
    Alike junk now first ⟨.nil, space.remove key, 0⟩ ↔ ∀ value, space.values key = some value →
      value = .list [] := by
  rw [run] at ran
  split at ran
  · next held =>
      cases ran
      rw [alike_iff_reply overdue]
      refine iff_of_true rfl fun value found => ?_
      rw [held] at found
      cases found
  · next nodes held =>
      split at ran <;> cases ran
      · next empty =>
          rw [alike_iff_reply overdue]
          refine iff_of_true rfl fun value found => ?_
          rw [held] at found
          rw [← Option.some.inj found, ListPos.node?_eq_none empty]
      · next node taken =>
          refine iff_of_false (fun alike => queued_bulk_ne_nil node alike.reply) fun heeds => ?_
          cases heeds _ held
          cases pos <;> cases taken
  · next value other held =>
      cases ran
      refine iff_of_false (fun alike => queued_typeErr_ne_nil alike.reply) fun heeds => ?_
      exact other [] (heeds value held)

theorem heeds_pop (pos : ListPos) (other : Bytes)
    (ran : run dbcnt (fun _ => now) space (.pop pos other) = some first)
    (ran' : run dbcnt (fun _ => now) (space.remove key) (.pop pos other) = some second) :
    Alike junk now first second ↔ Heeds space key (.pop pos other) := by
  by_cases same : other = key
  · subst same
    rw [run, Keyspace.remove_values_self] at ran'
    cases ran'
    rw [heeds_pop_self overdue ran]
    exact ⟨fun found _ => found, fun found => found rfl⟩
  · exact iff_of_true (alike_elsewhere overdue (acts_pop pos other) same ran ran') fun again =>
      absurd again same

/-- The commands that should mind a deadline are alike exactly when they heed the key. -/
theorem alike_iff_heeds (minds : cmd.Minds) (ran : run dbcnt (fun _ => now) space cmd = some first)
    (ran' : run dbcnt (fun _ => now) (space.remove key) cmd = some second) :
    Alike junk now first second ↔ cmd.Heeds space key := by
  have shadow : Keyspace.Shadow now key space (space.remove key) := .inr ⟨overdue, rfl⟩
  cases cmd with
  | get other =>
      cases ran
      cases ran'
      obtain ⟨found, left⟩ := shadow.look other
      exact iff_of_true (alike_of_eq (congrArg getReply found) left) trivial
  | mget keys =>
      cases ran
      cases ran'
      obtain ⟨found, left⟩ := shadow.lookAll keys
      refine iff_of_true (alike_of_eq ?_ left) trivial
      rw [found]
  | existing other =>
      refine (heeds_reader overdue (acts_existing other) ran ran').trans
        (imp_congr_right fun _ => ?_)
      cases space.values key with
      | none => exact iff_of_true rfl rfl
      | some value =>
          refine iff_of_false (fun replies => ?_) nofun
          have numbers : toInt32 1 = toInt32 0 := queued_int_injective replies
          exact absurd numbers (by decide)
  | setnx other value => exact heeds_creator overdue (acts_setnx other value) rfl ran ran'
  | del keys => exact heeds_del overdue keys ran ran'
  | llen other =>
      exact (heeds_reader overdue (acts_llen other) ran ran').trans
        (imp_congr_right fun _ => llenReply_iff)
  | push pos other nodes => exact heeds_creator overdue (acts_push pos other nodes) rfl ran ran'
  | pop pos other => exact heeds_pop overdue pos other ran ran'
  | hset other field value => exact heeds_creator overdue (acts_hset other field value) rfl ran ran'
  | hget other field =>
      exact (heeds_reader overdue (acts_hget other field) ran ran').trans
        (imp_congr_right fun _ => hgetReply_iff)
  | refused message =>
      cases ran
      cases ran'
      exact iff_of_true (alike_of_eq rfl shadow) trivial
  | _ => exact minds.elim

end Heed

end Cmd

/-! ## Requests -/

/-- The commands that should take an expired key for absent. -/
def mindNames : List Bytes :=
  [ascii "GET", ascii "MGET", ascii "EXISTS", ascii "SETNX", ascii "DEL", ascii "LLEN",
    ascii "LPUSH", ascii "RPUSH", ascii "LPOP", ascii "RPOP", ascii "HSET", ascii "HGET"]

theorem cmdOf_minds {args : List Bytes} (named : fkStr2upper (args.headD []) ∈ mindNames) :
    (cmdOf args).Minds := by
  have asks := cmdOf_asks args
  generalize fkStr2upper (args.headD []) = name at asks named
  generalize args.tail = rest at asks
  generalize cmdOf args = cmd at asks
  cases asks with
  | set | setex | mset | flushdb | flushall | save | select | zadd => exact absurd named (by decide)
  | _ => trivial

theorem Cmd.Minds.after {cmd : Cmd} (minds : cmd.Minds) (dbcnt idx : Nat) (spaces : Nat → Keyspace)
    (own : Keyspace) :
    cmd.after dbcnt idx spaces own = Function.update spaces idx own := by
  cases cmd with
  | flushall => exact minds.elim
  | _ => rfl

section Instant

variable {fkCmdEval : Handler} {work first second : Work} {args : List Bytes} {key : Bytes}
  {now deadline : Int}

/-- What two calls leave that end well: equal answers, and equal databases at the instant. -/
structure SameAt (now : Int) (first second : Work) : Prop where
  answer : first.out.wbuf.payload = second.out.wbuf.payload
  live : ∀ idx, (first.svr.spaces idx).live now = (second.svr.spaces idx).live now

/-- What a request does whose reply is accepted. -/
theorem procArgs_accepted (ok : SvrOk ArgName work.svr) (timed : work.svr.Timed)
    (named : fkStr2upper (args.headD []) ∈ mindNames)
    (called : procArgs fkCmdEval args work = .ok () first) :
    ∃ answer, (cmdOf args).run work.svr.dbcnt work.clockOn (work.svr.spaces work.out.dbIdx) =
      some answer ∧ first.out.wbuf.payload = work.out.wbuf.payload ++
      answer.reply.queued work.svr.junk ∧
      first.svr.spaces = Function.update work.svr.spaces work.out.dbIdx answer.space := by
  have nonempty : args ≠ [] := by
    rintro rfl
    exact absurd named (by decide)
  have notEval : fkStr2upper (args.headD []) ≠ ascii "EVAL" := by
    intro eval
    rw [eval] at named
    exact absurd named (by decide)
  have dispatched := @procArgs_dispatched ArgName fkCmdEval work work.svr.spaces args nonempty
    notEval ok timed.holds
  rw [called] at dispatched
  cases dispatched with
  | @done answer wbuf after ran queued leaves =>
      obtain ⟨space, fits⟩ := queued_of_ok queued
      refine ⟨answer, ran, fits.payload, ?_⟩
      change after.svr.spaces = _
      rw [leaves.holds.spaces_eq, (cmdOf_minds named).after]

/-- A command agrees with itself on the server without an expired key exactly when it heeds
the key. -/
theorem procArgs_heeds_iff (ok : SvrOk ArgName work.svr) (timed : work.svr.Timed)
    (named : fkStr2upper (args.headD []) ∈ mindNames)
    (instant : ∀ reading, work.clockOn reading = now)
    (limit : fkDictGet dbDictEop (work.svr.expdb work.out.dbIdx) key = some (.num deadline))
    (overdue : deadline < now) (called : procArgs fkCmdEval args work = .ok () first)
    (called' : procArgs fkCmdEval args ⟨work.svr.removeKey work.out.dbIdx key, work.out⟩ = .ok
      () second) :
    SameAt now first second ↔ (cmdOf args).Heeds (work.svr.spaces work.out.dbIdx) key := by
  obtain ⟨timed', spaces'⟩ := removeKey_spaces ok timed work.out.dbIdx key
  have gone : (work.svr.spaces work.out.dbIdx).expired now key = true := by
    unfold Keyspace.expired FkSvr.spaces
    dsimp only
    rw [limit]
    exact decide_eq_true overdue
  have still : work.clockOn = fun _ => now := funext instant
  obtain ⟨answer, ran, answered, spaces⟩ := procArgs_accepted ok timed named called
  obtain ⟨answer', ran', answered', last⟩ :=
    procArgs_accepted (ok.removeKey work.out.dbIdx key) timed' named called'
  rw [still] at ran
  change (cmdOf args).run work.svr.dbcnt work.clockOn
    ((work.svr.removeKey work.out.dbIdx key).spaces work.out.dbIdx) = some answer' at ran'
  change second.out.wbuf.payload = work.out.wbuf.payload ++ answer'.reply.queued
    work.svr.junk at answered'
  change second.svr.spaces = Function.update (work.svr.removeKey work.out.dbIdx key).spaces
    work.out.dbIdx answer'.space at last
  rw [spaces', Function.update_self, still] at ran'
  rw [spaces', Function.update_idem] at last
  rw [← Cmd.alike_iff_heeds gone (cmdOf_minds named) ran ran']
  constructor
  · intro same
    have answers := same.answer
    have live := same.live work.out.dbIdx
    rw [answered, answered'] at answers
    rw [spaces, last, Function.update_self, Function.update_self] at live
    exact ⟨List.append_cancel_left answers, live⟩
  · intro alike
    refine ⟨?_, fun idx => ?_⟩
    · rw [answered, answered', alike.reply]
    · rw [spaces, last]
      by_cases own : idx = work.out.dbIdx
      · subst own
        rw [Function.update_self, Function.update_self]
        exact alike.live
      · rw [Function.update_of_ne own, Function.update_of_ne own]

end Instant

theorem expiredRun_admitted :
    ∀ event ∈ [Event.connect 0, .command 0 [ascii "SETEX", ascii "k", ascii "1", ascii "v"]],
      event.Admitted := by
  decide +kernel

/-- A key gets a time limit of one second, and five seconds pass. -/
def expiredRun : FkRun (fun _ => Act.fault) 1 :=
  .of 1024 (fun reading => if reading = 0 then 0 else 5000) (fun _ => 0)
    [.connect 0, .command 0 [ascii "SETEX", ascii "k", ascii "1", ascii "v"]] expiredRun_admitted
      (by decide +kernel)

/-- A new client at that instant, with the key or without it. -/
def expiredWork : Work := ⟨expiredRun.final.svr, (fkConnCreate .real 1024).toFkConnOut⟩

def removedWork : Work :=
  ⟨expiredWork.svr.removeKey expiredWork.out.dbIdx (ascii "k"), expiredWork.out⟩

theorem expiredWork_svr : expiredWork.svr = expiredRun.final.svr := by simp only [expiredWork]

theorem expiredWork_limit :
    fkDictGet dbDictEop (expiredWork.svr.expdb expiredWork.out.dbIdx) (ascii "k") = some
      (.num 1000) := by decide +kernel

theorem expiredWork_instant (reading : Nat) : expiredWork.clockOn reading = 5000 := by
  have clock := expiredRun.final_clock (by decide)
  have readings : expiredWork.svr.readings = 1 := by decide +kernel
  unfold Work.clockOn
  rw [readings, expiredWork_svr, clock]
  change (if 1 + reading = 0 then 0 else 5000) = 5000
  exact if_neg (by omega)

theorem procArgs_heeds_get :
    ∃ first second, procArgs (fun _ => Act.fault) [ascii "GET", ascii "k"] expiredWork =
      .ok () first ∧ procArgs (fun _ => Act.fault) [ascii "GET", ascii "k"] removedWork = .ok
        () second ∧ SameAt 5000 first second := by
  have sound := (expiredRun.sound (by decide)).1
  have ok : SvrOk ArgName expiredWork.svr := by
    rw [expiredWork_svr]
    exact sound.ok
  have timed : expiredWork.svr.Timed := by
    rw [expiredWork_svr]
    exact sound.timed
  have named : fkStr2upper ([ascii "GET", ascii "k"].headD []) ∈ mindNames := by decide
  obtain ⟨first, called, _⟩ := @ok_of_returned
    (procArgs (fun _ => Act.fault) [ascii "GET", ascii "k"] expiredWork) (ascii "$-1\r\n")
      (by decide +kernel)
  obtain ⟨second, called', _⟩ := @ok_of_returned
    (procArgs (fun _ => Act.fault) [ascii "GET", ascii "k"] removedWork) (ascii "$-1\r\n")
      (by decide +kernel)
  refine ⟨first, second, called, called', (procArgs_heeds_iff ok timed named expiredWork_instant
    expiredWork_limit (by decide) called called').mpr ?_⟩
  have command : cmdOf [ascii "GET", ascii "k"] = .get (ascii "k") := cmdOf_get (by decide) _
  rw [command]
  trivial

/-- `EXISTS` still finds the key. -/
theorem procArgs_exists_expired :
    ∃ first second, procArgs (fun _ => Act.fault) [ascii "EXISTS", ascii "k"] expiredWork =
      .ok () first ∧ procArgs (fun _ => Act.fault) [ascii "EXISTS", ascii "k"] removedWork =
      .ok () second ∧ first.out.wbuf.payload = ascii ":1\r\n" ∧
      second.out.wbuf.payload = ascii ":0\r\n" ∧ ¬ SameAt 5000 first second := by
  obtain ⟨first, called, found⟩ := @ok_of_returned
    (procArgs (fun _ => Act.fault) [ascii "EXISTS", ascii "k"] expiredWork)
    (ascii ":1\r\n") (by decide +kernel)
  obtain ⟨second, called', absent⟩ := @ok_of_returned
    (procArgs (fun _ => Act.fault) [ascii "EXISTS", ascii "k"] removedWork)
    (ascii ":0\r\n") (by decide +kernel)
  refine ⟨first, second, called, called', found, absent, fun same => ?_⟩
  have answers := same.answer
  rw [found, absent] at answers
  revert answers
  decide

end Freekick
