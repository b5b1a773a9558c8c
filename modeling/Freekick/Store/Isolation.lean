import Freekick.Store.Runs
import Freekick.Store.Wire

/-!
# Databases are isolated

What concerns one database in a run: the commands that were executed on it with the
clock readings they took, and every `FLUSHALL`.  The contents of the database and the
reply terms of these commands are a function of that list.  The bytes of a reply are a
function of its term, unless a content goes on behind a zero byte: then they end with
what was in memory before.
-/

namespace Freekick

open Lib.Call

/-! ## What concerns a database -/

/-- A command that was executed on the database, with the times it read, or a `FLUSHALL`
from elsewhere. -/
inductive Seen where
  | own (args : List Bytes) (times : List Int)
  | flushall
  deriving DecidableEq

/-- The readings of the clock between two states. -/
def timesRead (sys next : FkSystem) : List Int :=
  (List.range (next.svr.readings - sys.svr.readings)).map fun reading =>
    sys.svr.clock (sys.svr.readings + reading)

/-- What an event means for the database. -/
def seen (idx : Nat) (sys next : FkSystem) : Event → List Seen
  | .command client args =>
      match sys.conns client with
      | none => []
      | some out =>
          if out.dbIdx = idx then [.own args (timesRead sys next)]
          else if cmdOf args = .flushall then [.flushall]
          else []
  | _ => []

/-- The bytes that were queued for a client. -/
def queuedFor (sys next : FkSystem) (client : Nat) : Bytes :=
  match sys.conns client, next.conns client with
  | some out, some after => after.wbuf.payload.drop out.wbuf.payload.length
  | _, _ => []

/-- The reply that an event on the database was given. -/
def given (idx : Nat) (sys next : FkSystem) : Event → List Bytes
  | .command client _ =>
      match sys.conns client with
      | none => []
      | some out => if out.dbIdx = idx then [queuedFor sys next client] else []
  | _ => []

section Observe

variable (fkCmdEval : Handler) (maxWbuf : Nat)

/-- What concerns the database in a run. -/
def observe (idx : Nat) : FkSystem → List Event → List Seen
  | _, [] => []
  | sys, event :: rest =>
      match sys.step fkCmdEval maxWbuf event with
      | none => []
      | some next => seen idx sys next event ++ observe idx next rest

/-- The replies to the commands on the database in a run. -/
def replies (idx : Nat) : FkSystem → List Event → List Bytes
  | _, [] => []
  | sys, event :: rest =>
      match sys.step fkCmdEval maxWbuf event with
      | none => []
      | some next => given idx sys next event ++ replies idx next rest

end Observe

/-! ## The database as a function of it -/

/-- The contents and the reply terms after a list of what concerns the database. -/
def Keyspace.follow (dbcnt : Nat) : Keyspace → List Seen → Keyspace × List Reply
  | space, [] => (space, [])
  | _, .flushall :: rest => Keyspace.follow dbcnt .empty rest
  | space, .own args times :: rest =>
      match (cmdOf args).run dbcnt (fun reading => times.getD reading 0) space with
      | none => (space, [])
      | some answer =>
          let later := Keyspace.follow dbcnt answer.space rest
          (later.1, answer.reply :: later.2)

/-! ## Contents with a zero byte inside -/

/-- The content goes on behind a zero byte. -/
def Leaky (bytes : Bytes) : Prop := (0 : UInt8) ∈ bytes.dropLast

instance (bytes : Bytes) : Decidable (Leaky bytes) :=
  inferInstanceAs (Decidable ((0 : UInt8) ∈ bytes.dropLast))

/-- The contents that a command takes from the database. -/
def Cmd.fetched (clock : Nat → Int) (space : Keyspace) : Cmd → List Bytes
  | .get key => ((space.look clock key).found.bind Value.bytes?).toList
  | .mget keys =>
      ((space.lookAll clock keys).found.map fun value => value.bind Value.bytes?).reduceOption
  | .hget hkey key =>
      match space.values hkey with
      | some (.hash fields) => (fields key).toList
      | _ => []
  | .pop pos key =>
      match space.values key with
      | some (.list nodes) => (pos.node? nodes).toList
      | _ => []
  | _ => []

/-- No content that the event takes from the database goes on behind a zero byte. -/
def Sealed (idx : Nat) (sys : FkSystem) : Event → Prop
  | .command client args => ∀ out, sys.conns client = some out → out.dbIdx = idx →
      ∀ bytes ∈ (cmdOf args).fetched (Work.clockOn ⟨sys.svr, out⟩) (sys.svr.spaces idx),
        ¬ Leaky bytes
  | _ => True

theorem printed_short (junk : Nat → UInt8) {text : Bytes} {len : Nat}
    (short : len ≤ text.length + 1) :
    printed junk text len = (text ++ [0]).take len := by
  unfold printed
  by_cases whole : text.length ≤ len
  · rw [List.take_of_length_le whole, List.append_cons, List.take_append_of_le_length]
    rw [List.length_append]
    exact short
  · have cut : len ≤ (text.take len).length := by
      rw [List.length_take]
      omega
    rw [List.take_append_of_le_length cut, List.take_take, Nat.min_self,
      List.take_append_of_le_length (by omega)]

theorem length_le_cString {bytes : Bytes} (tight : ¬ Leaky bytes) :
    bytes.length ≤ (cString bytes).length + 1 := by
  by_cases zero : (0 : UInt8) ∈ bytes
  · obtain ⟨rest, split⟩ := cString_split zero
    generalize cString bytes = start at split
    subst split
    cases rest with
    | nil => exact Nat.le_of_eq List.length_append
    | cons byte rest =>
        refine absurd ?_ tight
        unfold Leaky
        rw [List.dropLast_append_of_ne_nil (List.cons_ne_nil _ _), List.dropLast_cons_cons]
        exact List.mem_append_right _ (List.mem_cons_self ..)
  · rw [cString_of_no_zero zero]
    exact Nat.le_succ _

/-- A call whose bytes are tight does not show what was in memory. -/
theorem Rsp.printed_tight (junk other : Nat → UInt8) {rsp : Rsp} (tight : ¬ Leaky rsp.bytes) :
    printed junk rsp.text rsp.len = printed other rsp.text rsp.len := by
  have short : rsp.len ≤ rsp.text.length + 1 := by
    have bytes := length_le_cString tight
    have tail : crlf.length = 2 := rfl
    cases rsp <;> simp only [Rsp.bytes, Rsp.text, Rsp.len, List.length_cons, List.length_append,
      length_signedDecimal, tail] at bytes ⊢ <;> omega
  rw [printed_short junk short, printed_short other short]

/-- The messages of the server. -/
def messages : List Bytes := fkRspOk :: fkRspErr :: fkRspTypeErr :: refusals

/-- What a reply term prints with `%s`. -/
theorem Reply.calls_bytes {reply : Reply} {rsp : Rsp} (member : rsp ∈ reply.calls) :
    rsp.bytes = [] ∨ rsp.bytes ∈ reply.values ∨ reply = .status rsp.bytes ∨
      reply = .error rsp.bytes := by
  have bulk : ∀ item : Option Bytes, rsp ∈ bulkCalls item → rsp.bytes = [] ∨
      item = some rsp.bytes := by
    intro item inside
    cases item with
    | none =>
        rw [List.mem_singleton.mp inside]
        exact .inl rfl
    | some bytes =>
        rcases List.mem_pair.mp inside with rfl | rfl
        · exact .inl rfl
        · exact .inr rfl
  cases reply with
  | status stat =>
      rw [List.mem_singleton.mp member]
      exact .inr (.inr (.inl rfl))
  | error message =>
      rw [List.mem_singleton.mp member]
      exact .inr (.inr (.inr rfl))
  | int num =>
      rw [List.mem_singleton.mp member]
      exact .inl rfl
  | nil => exact (bulk none member).imp_right nofun
  | bulk bytes =>
      refine (bulk (some bytes) member).imp_right fun same => .inl ?_
      rw [← Option.some.inj same]
      exact List.mem_singleton.mpr rfl
  | multi items =>
      rcases List.mem_cons.mp member with rfl | later
      · exact .inl rfl
      · obtain ⟨item, inside, called⟩ := List.mem_flatMap.mp later
        refine (bulk item called).imp_right fun same => .inl ?_
        rw [same] at inside
        exact List.reduceOption_mem_iff.mpr inside

/-- What is in the reply of a command. -/
structure Cmd.Tells (clock : Nat → Int) (space : Keyspace) (cmd : Cmd) (reply : Reply) : Prop where
  values : reply.values = cmd.fetched clock space
  message : ∀ message, reply = .status message ∨ reply = .error message → message ∈ messages

theorem Cmd.tells_message {clock : Nat → Int} {space : Keyspace} {cmd : Cmd} {reply : Reply}
    {message : Bytes} (same : reply = .status message ∨ reply = .error message)
    (known : message ∈ messages) (fetched : cmd.fetched clock space = []) :
    cmd.Tells clock space reply where
  values := by
    rw [fetched]
    rcases same with rfl | rfl <;> rfl
  message := by
    intro other again
    rcases same with rfl | rfl <;> rcases again with again | again <;> cases again
    · exact known
    · exact known

theorem Cmd.run_tells {dbcnt : Nat} {clock : Nat → Int} {space : Keyspace} {cmd : Cmd}
    {answer : Answer} (known : ∀ message, cmd = .refused message → message ∈ refusals)
    (ran : cmd.run dbcnt clock space = some answer) :
    cmd.Tells clock space answer.reply := by
  have done : cmd.fetched clock space = [] → cmd.Tells clock space (.status fkRspOk) :=
    tells_message (.inl rfl) (by decide)
  have mistyped : cmd.fetched clock space = [] → cmd.Tells clock space (.error fkRspTypeErr) :=
    tells_message (.inr rfl) (by decide)
  have number : ∀ num, cmd.fetched clock space = [] → cmd.Tells clock space (.int num) :=
    fun num fetched =>
      ⟨fetched.symm, by rintro _ (same | same) <;> cases same⟩
  have missing : cmd.fetched clock space = [] → cmd.Tells clock space .nil := fun fetched =>
    ⟨fetched.symm, by rintro _ (same | same) <;> cases same⟩
  cases cmd with
  | set => cases ran; exact done rfl
  | setnx key value =>
      rw [run] at ran
      split at ran <;> cases ran
      · exact number 0 rfl
      · exact number 1 rfl
  | setex => cases ran; exact done rfl
  | mset => cases ran; exact done rfl
  | mget keys =>
      cases ran
      exact ⟨rfl, by rintro _ (same | same) <;> cases same⟩
  | get key =>
      cases ran
      have fetched : (Cmd.get key).fetched clock space =
          ((space.look clock key).found.bind Value.bytes?).toList := rfl
      dsimp only
      generalize (space.look clock key).found = found at fetched ⊢
      cases found with
      | none => exact missing fetched
      | some value =>
          cases value with
          | str bytes => exact ⟨fetched.symm, by rintro _ (same | same) <;> cases same⟩
          | _ => exact mistyped fetched
  | del => cases ran; exact number _ rfl
  | flushdb => cases ran; exact done rfl
  | existing => cases ran; exact number _ rfl
  | flushall => cases ran; exact done rfl
  | hset hkey key value =>
      rw [run] at ran
      split at ran <;> cases ran
      · exact number 1 rfl
      · exact number 1 rfl
      · exact mistyped rfl
  | hget hkey key =>
      cases ran
      cases held : space.values hkey with
      | none => exact missing (by simp only [fetched, held])
      | some value =>
          cases value with
          | hash fields =>
              dsimp only [hgetReply]
              cases found : fields key with
              | none => exact missing (by simp only [fetched, held, found, Option.toList_none])
              | some bytes =>
                  exact ⟨by simp only [fetched, held, found, Reply.values, Option.toList_some],
                    by rintro _ (same | same) <;> cases same⟩
          | _ => exact mistyped (by simp only [fetched, held])
  | push pos key nodes =>
      rw [run] at ran
      split at ran <;> cases ran
      · exact number _ rfl
      · exact number _ rfl
      · exact mistyped rfl
  | pop pos key =>
      rw [run] at ran
      split at ran
      · next held =>
          cases ran
          exact missing (by simp only [fetched, held])
      · next nodes held =>
          split at ran <;> cases ran
          · next empty => exact missing (by simp only [fetched, held, empty, Option.toList_none])
          · next node found =>
              exact ⟨by simp only [fetched, held, found, Reply.values, Option.toList_some],
                by rintro _ (same | same) <;> cases same⟩
      · next value noList held =>
          cases ran
          refine mistyped ?_
          rw [fetched]
          split
          · next nodes again => 
              rw [held] at again
              cases again
              exact absurd rfl (noList nodes)
          · rfl
  | llen key =>
      cases ran
      dsimp only
      unfold llenReply
      split
      · exact number 0 rfl
      · exact number _ rfl
      · exact mistyped rfl
  | save => cases ran; exact done rfl
  | select text =>
      cases ran
      dsimp only
      split
      · exact tells_message (.inr rfl) (by decide) rfl
      · exact done rfl
  | zadd key count =>
      rw [run] at ran
      split at ran <;> cases ran
      dsimp only
      split
      · exact tells_message (.inr rfl) (by decide) rfl
      · exact number _ rfl
  | refused message =>
      cases ran
      exact tells_message (.inr rfl)
        (List.mem_cons_of_mem _ (List.mem_cons_of_mem _ (List.mem_cons_of_mem _
          (known message rfl)))) rfl

/-! ## Commands and the clock -/

section Clock

variable {clock other : Nat → Int} {space : Keyspace}

/-- A look reads the clock at most once. -/
theorem Keyspace.look_congr {key : Bytes}
    (same : ∀ reading < (space.look clock key).readings, clock reading = other reading) :
    space.look other key = space.look clock key := by
  unfold look at same ⊢
  cases limit : space.deadlines key with
  | none => rfl
  | some deadline =>
      rw [limit] at same
      have once : clock 0 = other 0 := by
        refine same 0 ?_
        dsimp only
        split <;> exact Nat.one_pos
      dsimp only
      rw [once]

theorem Keyspace.lookAll_congr {keys : List Bytes}
    (same : ∀ reading < (space.lookAll clock keys).readings, clock reading = other reading) :
    space.lookAll other keys = space.lookAll clock keys := by
  induction keys generalizing clock other space with
  | nil => rfl
  | cons key rest ih =>
      rw [lookAll] at same
      have first := @look_congr clock other space key fun reading inside =>
        same reading (Nat.lt_add_right _ inside)
      have later := @ih (fun reading => clock ((space.look clock key).readings + reading))
        (fun reading => other ((space.look clock key).readings + reading))
          (space.look clock key).left
        fun reading inside => same _ (Nat.add_lt_add_left inside _)
      rw [lookAll, lookAll, first, later]

/-- A command depends on the readings it takes. -/
theorem Cmd.run_congr {dbcnt : Nat} {cmd : Cmd} {answer : Answer}
    (ran : cmd.run dbcnt clock space = some answer)
    (same : ∀ reading < answer.readings, clock reading = other reading) :
    cmd.run dbcnt other space = some answer := by
  cases cmd with
  | get key =>
      cases ran
      rw [run, Keyspace.look_congr same]
  | mget keys =>
      cases ran
      rw [run, Keyspace.lookAll_congr same]
  | setex key exp value =>
      cases ran
      rw [run, same 0 Nat.one_pos]
  | _ => exact ran

end Clock

/-! ## One event -/

/-- The reply is tight: its bytes do not show what was in memory. -/
theorem Reply.queued_tight (junk other : Nat → UInt8) {reply : Reply}
    (tight : ∀ bytes ∈ reply.values, ¬ Leaky bytes)
    (message : ∀ message, reply = .status message ∨ reply = .error message → message ∈ messages) :
    reply.queued junk = reply.queued other := by
  refine List.flatMap_congr fun rsp member => Rsp.printed_tight junk other ?_
  have known : ∀ message ∈ [] :: messages, ¬ Leaky message := by decide
  rcases Reply.calls_bytes member with none | value | said
  · exact known _ (by rw [none]; exact List.mem_cons_self ..)
  · exact tight _ value
  · exact known _ (List.mem_cons_of_mem _ (message _ said))

section Step

variable {fkCmdEval : Handler} {maxWbuf idx : Nat} {sys next : FkSystem} {event : Event}
  {events : List Event}

/-- What a step adds to the contents and the replies. -/
structure Follows (idx : Nat) (sys next : FkSystem) (event : Event)
    (terms : List Reply) : Prop where
  junk : next.svr.junk = sys.svr.junk
  step : ∀ later, Keyspace.follow sys.svr.dbcnt (sys.svr.spaces idx)
    (seen idx sys next event ++ later) =
    ((Keyspace.follow sys.svr.dbcnt (next.svr.spaces idx) later).1,
      terms ++ (Keyspace.follow sys.svr.dbcnt (next.svr.spaces idx) later).2)
  given : given idx sys next event = terms.map (Reply.queued sys.svr.junk)
  tight : Sealed idx sys event → ∀ junk, ∀ term ∈ terms, term.queued sys.svr.junk = term.queued junk

/-- An event without a command on any database. -/
theorem follows_of_same (same : next.svr = sys.svr) (unseen : seen idx sys next event = [])
    (silent : given idx sys next event = []) : Follows idx sys next event [] where
  junk := by rw [same]
  step := by
    intro later
    rw [unseen, same]
    rfl
  given := silent
  tight := nofun

theorem Leaves.junk {work after : Work} {spaces : Nat → Keyspace} {cmd : Cmd} {answer : Answer}
    (leaves : Leaves work spaces cmd answer after) : after.svr.junk = work.svr.junk :=
  congrArg (fun parts => parts.2.2.2.2.2) leaves.frame

/-- Requests that no handler sees are answered with one of few messages. -/
theorem cmdOf_refused (args : List Bytes) (message : Bytes) (same : cmdOf args = .refused message) :
    message ∈ refusals := by
  have asks := cmdOf_asks args
  rw [same] at asks
  generalize fkStr2upper (args.headD []) = name at asks
  generalize args.tail = rest at asks
  cases asks with
  | refused known => exact known

/-- What a command reads of the clock is what the clock shows between the two states. -/
theorem timesRead_getD {out : FkConnOut} {readings : Nat}
    (read : next.svr.readings = sys.svr.readings + readings) :
    ∀ reading < readings, Work.clockOn ⟨sys.svr, out⟩ reading = (timesRead sys next).getD
      reading 0 := by
  intro reading inside
  unfold timesRead
  rw [read, Nat.add_sub_cancel_left, List.getD_eq_getElem?_getD, List.getElem?_map,
    List.getElem?_range inside]
  rfl

theorem queuedFor_setConn {base : FkSystem} {client : Nat} {out after : FkConnOut}
    (connected : sys.conns client = some out) :
    queuedFor sys (base.setConn client (some after)) client = after.wbuf.payload.drop
      out.wbuf.payload.length := by
  have replaced : (base.setConn client (some after)).conns client = some after :=
    Function.update_self ..
  rw [queuedFor, connected, replaced]

theorem command_follows {client : Nat} {args : List Bytes} {out : FkConnOut}
    (inside : idx < sys.svr.dbcnt) (sound : sys.Sound) (admitted : Admitted args)
    (connected : sys.conns client = some out)
    (accepted : Accepted fkCmdEval sys (.command client args))
    (stepped : sys.command fkCmdEval client args = some next) :
    ∃ terms, Follows idx sys next (.command client args) terms := by
  obtain ⟨answer, wbuf, after, ran, queued, leaves, finished⟩ :=
    FkSystem.command_accepted admitted sound connected accepted
  rw [finished] at stepped
  cases stepped
  have spaces : after.svr.spaces = (cmdOf args).after sys.svr.dbcnt out.dbIdx sys.svr.spaces
      answer.space :=
    leaves.holds.spaces_eq
  by_cases own : out.dbIdx = idx
  · subst own
    have tells := Cmd.run_tells (cmdOf_refused args) ran
    refine ⟨[answer.reply], leaves.junk, fun later => ?_, ?_, fun tight junk => ?_⟩
    · change _ = ((Keyspace.follow _ (after.svr.spaces _) later).1,
        _ ++ (Keyspace.follow _ (after.svr.spaces _) later).2)
      rw [spaces, Cmd.after_own inside ran, seen, connected]
      dsimp only
      rw [if_pos rfl, List.singleton_append, Keyspace.follow,
        Cmd.run_congr ran (timesRead_getD leaves.readings)]
      rfl
    · obtain ⟨space, fits⟩ := queued_of_ok queued
      rw [given, connected]
      dsimp only
      rw [if_pos rfl, queuedFor_setConn connected]
      change [wbuf.payload.drop _] = _
      rw [fits.payload, List.drop_left]
      rfl
    · intro term member
      rw [List.mem_singleton.mp member]
      refine Reply.queued_tight _ _ ?_ tells.message
      rw [tells.values]
      exact tight out connected rfl
  · refine ⟨[], leaves.junk, fun later => ?_, ?_, nofun⟩
    · change _ = ((Keyspace.follow _ (after.svr.spaces _) later).1,
        _ ++ (Keyspace.follow _ (after.svr.spaces _) later).2)
      rw [spaces, Cmd.after_other inside own, seen, connected]
      dsimp only
      rw [if_neg own]
      by_cases flush : cmdOf args = .flushall
      · rw [if_pos flush, if_pos flush]
        rfl
      · rw [if_neg flush, if_neg flush]
        rfl
    · rw [given, connected]
      exact if_neg own

theorem step_follows (inside : idx < sys.svr.dbcnt) (sound : sys.Sound) (admitted : event.Admitted)
    (accepted : Accepted fkCmdEval sys event)
    (stepped : sys.step fkCmdEval maxWbuf event = some next) :
    ∃ terms, Follows idx sys next event terms := by
  cases event with
  | command client args =>
      cases connected : sys.conns client with
      | none =>
          have same : sys.command fkCmdEval client args = some sys := by
            rw [FkSystem.command, connected]
          change sys.command fkCmdEval client args = some next at stepped
          rw [same] at stepped
          cases stepped
          refine ⟨[], follows_of_same rfl ?_ ?_⟩
          · rw [seen, connected]
          · rw [given, connected]
      | some out => exact command_follows inside sound admitted connected accepted stepped
  | connect client =>
      cases stepped
      exact ⟨[], follows_of_same rfl rfl rfl⟩
  | sent client count =>
      cases stepped
      exact ⟨[], follows_of_same rfl rfl rfl⟩
  | close client =>
      cases stepped
      exact ⟨[], follows_of_same rfl rfl rfl⟩

/-! ## Runs -/

/-- The contents and the replies at the end of a run. -/
structure Followed (idx : Nat) (sys final : FkSystem) (obs : List Seen)
    (answers : List Bytes) : Prop where
  space : final.svr.spaces idx = (Keyspace.follow sys.svr.dbcnt (sys.svr.spaces idx) obs).1
  answers : answers = (Keyspace.follow sys.svr.dbcnt (sys.svr.spaces idx) obs).2.map
    (Reply.queued sys.svr.junk)

theorem FkSystem.run_followed {final : FkSystem} (inside : idx < sys.svr.dbcnt) (sound : sys.Sound)
    (admitted : ∀ event ∈ events, event.Admitted)
    (accepted : Along fkCmdEval maxWbuf (Accepted fkCmdEval) sys events)
    (reached : sys.run fkCmdEval maxWbuf events = some final) :
    Followed idx sys final (observe fkCmdEval maxWbuf idx sys events)
      (replies fkCmdEval maxWbuf idx sys events) ∧
      (Along fkCmdEval maxWbuf (Sealed idx) sys events →
        ∀ junk, ∀ term ∈ (Keyspace.follow sys.svr.dbcnt
          (sys.svr.spaces idx) (observe fkCmdEval maxWbuf idx sys events)).2,
          term.queued sys.svr.junk = term.queued junk) := by
  induction events generalizing sys with
  | nil =>
      cases reached
      exact ⟨⟨rfl, rfl⟩, nofun⟩
  | cons event rest ih =>
      obtain ⟨middle, stepped, later⟩ := Option.bind_eq_some_iff.mp reached
      obtain ⟨here, there⟩ := List.forall_mem_cons.mp admitted
      obtain ⟨between, dbcnt⟩ := FkSystem.step_sound (Nat.zero_lt_of_lt inside) here sound stepped
      obtain ⟨terms, follows⟩ := step_follows inside sound here accepted.1 stepped
      obtain ⟨followed, tight⟩ :=
        ih (by rw [dbcnt]; exact inside) between there (accepted.2 middle stepped) later
      have split := follows.step (observe fkCmdEval maxWbuf idx middle rest)
      have space := followed.space
      have answers := followed.answers
      rw [dbcnt] at space answers tight
      rw [observe, replies, stepped]
      dsimp only
      refine ⟨⟨?_, ?_⟩, fun allTight junk term member => ?_⟩
      · rw [split]
        exact space
      · rw [split, List.map_append, ← follows.given, answers, follows.junk]
      · rw [split] at member
        rcases List.mem_append.mp member with new | old
        · exact follows.tight allTight.1 junk term new
        · have known := tight (allTight.2 middle stepped) junk term old
          rwa [follows.junk] at known

end Step

instance (idx : Nat) (sys : FkSystem) (event : Event) : Decidable (Sealed idx sys event) :=
  match event with
  | .command client args =>
      inferInstanceAs (Decidable (∀ out ∈ sys.conns client, out.dbIdx = idx →
        ∀ bytes ∈ (cmdOf args).fetched (Work.clockOn ⟨sys.svr, out⟩) (sys.svr.spaces idx),
        ¬ Leaky bytes))
  | .connect _ => isTrue trivial
  | .sent _ _ => isTrue trivial
  | .close _ => isTrue trivial

namespace FkRun

variable {fkCmdEval : Handler} {dbcnt : Nat} (run : FkRun fkCmdEval dbcnt) (idx : Nat)

/-- No content that is taken from the database goes on behind a zero byte. -/
def Sealed : Prop := Along fkCmdEval run.maxWbuf (Freekick.Sealed idx) run.start run.events

/-- The commands on the database with the times they read, and the `FLUSHALL`s. -/
def observe : List Seen := Freekick.observe fkCmdEval run.maxWbuf idx run.start run.events

/-- The replies to the commands on the database. -/
def replies : List Bytes := Freekick.replies fkCmdEval run.maxWbuf idx run.start run.events

instance : Decidable (run.Sealed idx) :=
  inferInstanceAs (Decidable
    (Along fkCmdEval run.maxWbuf (Freekick.Sealed idx) run.start run.events))

theorem followed (inside : idx < dbcnt) (accepted : run.Accepted) :
    Followed idx run.start run.final (run.observe idx) (run.replies idx) ∧
      (run.Sealed idx → ∀ junk,
        ∀ term ∈ (Keyspace.follow dbcnt (run.start.svr.spaces idx) (run.observe idx)).2,
        term.queued run.junk = term.queued junk) :=
  FkSystem.run_followed inside (fkSystemInit_sound dbcnt run.blogOn run.clock run.junk) run.admitted
    accepted run.reached

end FkRun

section Isolated

variable {fkCmdEval : Handler} {dbcnt : Nat}

/-- A client has selected a database that exists, and what happens on a database is
determined by the commands on it as long as its contents are tight. -/
theorem fkSystem_isolated (positive : 0 < dbcnt) (run : FkRun fkCmdEval dbcnt) :
    (∀ client out, run.final.conns client = some out → out.dbIdx < dbcnt) ∧
      ∀ idx < dbcnt, ∀ other : FkRun fkCmdEval dbcnt, run.Accepted → other.Accepted →
        run.Sealed idx → run.observe idx = other.observe idx →
        run.replies idx = other.replies idx ∧
          run.final.svr.spaces idx = other.final.svr.spaces idx := by
  constructor
  · obtain ⟨sound, kept⟩ := run.sound positive
    have indices := sound.idx
    rw [kept] at indices
    exact indices
  · intro idx inside other accepted accepted' tight same
    obtain ⟨followed, alike⟩ := run.followed idx inside accepted
    obtain ⟨followed', _⟩ := other.followed idx inside accepted'
    -- Both runs start with empty databases.
    have start : run.start.svr.spaces idx = other.start.svr.spaces idx := rfl
    rw [followed.answers, followed'.answers, followed.space, followed'.space, ← same, ← start]
    refine ⟨List.map_congr_left fun term member => ?_, rfl⟩
    exact alike tight other.junk term member

end Isolated

/-- A client stores and reads a value in database 1. -/
def quietRun : FkRun (fun _ => Act.fault) 2 :=
  .of 1024 (fun _ => 0) (fun _ => 65)
    [.connect 0, .command 0 [ascii "SELECT", ascii "1"],
      .command 0 [ascii "SET", ascii "k", ascii "v"],
      .command 0 [ascii "GET", ascii "k"]] (by decide +kernel) (by decide +kernel)

/-- Meanwhile another client works on database 0. -/
def busyRun : FkRun (fun _ => Act.fault) 2 :=
  .of 1024 (fun _ => 0) (fun _ => 66)
    [.connect 0, .connect 1, .command 1 [ascii "SET", ascii "k", ascii "w"],
      .command 0 [ascii "SELECT", ascii "1"], .command 0 [ascii "SET", ascii "k", ascii "v"],
      .command 1 [ascii "DEL", ascii "k"], .command 0 [ascii "GET", ascii "k"]] (by decide +kernel)
        (by decide +kernel)

theorem fkSystem_isolated_pair :
    quietRun.Accepted ∧ busyRun.Accepted ∧ quietRun.Sealed 1 ∧
      quietRun.observe 1 = busyRun.observe 1 ∧ quietRun.replies 1 = busyRun.replies 1 ∧
      quietRun.final.svr.spaces 1 = busyRun.final.svr.spaces 1 := by
  have accepted : quietRun.Accepted := by decide +kernel
  have accepted' : busyRun.Accepted := by decide +kernel
  have tight : quietRun.Sealed 1 := by decide +kernel
  have same : quietRun.observe 1 = busyRun.observe 1 := by decide +kernel
  refine ⟨accepted, accepted', tight, same, ?_⟩
  exact (fkSystem_isolated (by decide) quietRun).2 1 (by decide) busyRun accepted
    accepted' tight same

/-- A value that goes on behind a zero byte is stored and read. -/
def leakyEvents : List Event :=
  [.connect 0, .command 0 [ascii "SET", ascii "k", [0, 120, 121]],
    .command 0 [ascii "GET", ascii "k"]]

def leakyRun : FkRun (fun _ => Act.fault) 1 :=
  .of 1024 (fun _ => 0) (fun _ => 65) leakyEvents (by decide +kernel) (by decide +kernel)

/-- The same commands, with something else in memory. -/
def leakyRun' : FkRun (fun _ => Act.fault) 1 :=
  .of 1024 (fun _ => 0) (fun _ => 66) leakyEvents (by decide +kernel) (by decide +kernel)

/-- The reply shows what was in memory. -/
theorem fkSystem_shows_memory :
    leakyRun.Accepted ∧ leakyRun'.Accepted ∧ leakyRun.events = leakyRun'.events ∧
      leakyRun.observe 0 = leakyRun'.observe 0 ∧ leakyRun.replies 0 ≠ leakyRun'.replies 0 := by
  refine ⟨?_, ?_, rfl, ?_, ?_⟩
  · decide +kernel
  · decide +kernel
  · decide +kernel
  · decide +kernel

end Freekick
