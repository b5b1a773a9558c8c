import Freekick.Store.Follow
import Freekick.Store.Lasting
import Freekick.Store.Space

/-!
# Deadlines that are asked for: `fk_cmd_setex` and `fk_handle_expired_key`

`SETEX` multiplies the seconds by a thousand and adds the clock in 64 bits.  A key with a
deadline is found until the deadline is over; in between it may have been swept away.
-/

namespace Freekick

open Lib.Call Lib.Decimal Lib.Steps

/-! ## Numbers -/

/-- A number of the type `long long`. -/
def InLong (number : Int) : Prop := -(2 ^ 63) ≤ number ∧ number < 2 ^ 63

/-- The deadline is a `long long`; or it is larger, and wraps to the largest of them. -/
def DeadlineFits (time secs : Int) : Prop :=
  -(2 ^ 63) ≤ time + 1000 * secs ∧
    (time + 1000 * secs < 2 ^ 63 ∨ (min secs (2 ^ 63 - 1) * 1000 + time) % 2 ^ 64 = 2 ^ 63 - 1)

/-- `strtol` reads the text of any number, and clamps it. -/
theorem strtol_signedDecimal (number : Int) :
    strtol (signedDecimal number) = saturate64 number := by
  unfold signedDecimal
  split
  · next negative =>
      have digits : (decimal number.natAbs).takeWhile isDigit = decimal number.natAbs :=
        List.takeWhile_eq_self_iff.mpr (decimal_digits _)
      change saturate64 (-(value ((decimal number.natAbs).takeWhile isDigit) : Int)) = _
      rw [digits, value_decimal]
      congr 1
      omega
  · next positive =>
      have read := @strtol_digits (decimal number.natAbs) [] (decimal_ne_nil _)
        (decimal_digits _) rfl
      rw [List.append_nil, value_decimal] at read
      rw [read]
      congr 1
      omega

/-- The deadline that is stored is the one that is asked for as far as readings of the clock can
tell. -/
theorem deadline_iff {time secs : Int} (long : InLong time) :
    (∀ reading, InLong reading →
      (reading ≤ toInt64 (saturate64 secs * 1000 + time) ↔ reading ≤ time + 1000 * secs)) ↔
      DeadlineFits time secs := by
  unfold InLong at long ⊢
  unfold DeadlineFits
  generalize stored : toInt64 (saturate64 secs * 1000 + time) = deadline
  unfold toInt64 saturate64 at stored
  rw [Int.bmod] at stored
  constructor
  · intro same
    -- The readings that tell: the stored deadline itself, and the largest one.
    have own := same deadline (by split at stored <;> omega)
    have largest := same (2 ^ 63 - 1) (by omega)
    split at stored <;> omega
  · rintro ⟨least, fits⟩ reading inside
    split at stored <;> omega

/-! ## Commands on other keys -/

namespace Cmd

/-- The keys that a command names. -/
def keys : Cmd → List Bytes
  | .set key _ | .setnx key _ | .setex key _ _ | .get key | .existing key | .hset key _ _ |
    .hget key _ | .push _ key _
  | .pop _ key | .llen key | .zadd key _ => [key]
  | .mset pairs => pairs.map Prod.fst
  | .mget keys | .del keys => keys
  | .flushdb | .flushall | .save | .select _ | .refused _ => []

theorem keys_of_ownKey {cmd : Cmd} {key : Bytes} (own : cmd.ownKey = some key) :
    cmd.keys = [key] := by
  cases cmd <;> first | (cases own; rfl) | cases own

/-- The command empties the selected database. -/
def Empties (cmd : Cmd) : Prop := cmd = .flushdb ∨ cmd = .flushall

theorem keys_cut (cmd : Cmd) (count : Nat) : (cmd.cut count).keys ⊆ cmd.keys := by
  cases cmd with
  | pop pos key => exact List.nil_subset _
  | mget keys => exact List.take_subset ..
  | _ => exact List.Subset.refl _

theorem empties_cut {cmd : Cmd} {count : Nat} (empties : (cmd.cut count).Empties) :
    cmd.Empties := by
  cases cmd with
  | pop pos key => rcases empties with same | same <;> cases same
  | mget keys => rcases empties with same | same <;> cases same
  | _ => exact empties

end Cmd

/-- Both keyspaces have the same under the key. -/
def Keyspace.SameAt (first second : Keyspace) (key : Bytes) : Prop :=
  second.values key = first.values key ∧ second.deadlines key = first.deadlines key

namespace Keyspace.SameAt

variable {space : Keyspace} {clock : Nat → Int} {key other : Bytes}

theorem put (apart : key ≠ other) (value : Value) : space.SameAt (space.put other value) key :=
  ⟨Function.update_of_ne apart .., rfl⟩

theorem write (apart : key ≠ other) (item : Option Value) :
    space.SameAt (space.write other item) key := by
  cases item with
  | none => exact ⟨rfl, rfl⟩
  | some value => exact put apart value

theorem look (apart : key ≠ other) : space.SameAt (space.look clock other).left key := by
  unfold Keyspace.look
  split
  · exact ⟨rfl, rfl⟩
  · split
    · exact ⟨Function.update_of_ne apart .., Function.update_of_ne apart ..⟩
    · exact ⟨rfl, rfl⟩

theorem lookAll {keys : List Bytes} (away : key ∉ keys) :
    space.SameAt (space.lookAll clock keys).left key := by
  induction keys generalizing clock space with
  | nil => exact ⟨rfl, rfl⟩
  | cons other rest ih =>
      obtain ⟨apart, away⟩ := not_or.mp (List.mem_cons.not.mp away)
      have first := @look space clock key other apart
      have later := @ih (space.look clock other).left
        (fun reading => clock ((space.look clock other).readings + reading)) away
      exact ⟨later.1.trans first.1, later.2.trans first.2⟩

end Keyspace.SameAt

/-- A command on other keys leaves the key. -/
theorem Cmd.run_away {dbcnt : Nat} {clock : Nat → Int} {space : Keyspace} {key : Bytes} {cmd : Cmd}
    {answer : Answer} (away : key ∉ cmd.keys) (kept : ¬ cmd.Empties)
    (ran : cmd.run dbcnt clock space = some answer) :
    space.SameAt answer.space key := by
  cases own : cmd.ownKey with
  | some other =>
      obtain ⟨act, acts⟩ := Cmd.exists_acts own
      rw [acts.run] at ran
      cases ran
      rw [Cmd.keys_of_ownKey own] at away
      exact .write (List.ne_of_not_mem_cons away) _
  | none =>
      cases cmd with
      | set other value =>
          cases ran
          exact .put (List.ne_of_not_mem_cons away) _
      | setex other exp value =>
          cases ran
          have apart := List.ne_of_not_mem_cons away
          exact ⟨Function.update_of_ne apart .., Function.update_of_ne apart ..⟩
      | mset pairs =>
          cases ran
          have unwritten : Freekick.written pairs key = none := by
            unfold Freekick.written
            rw [List.find?_eq_none.mpr, Option.map_none]
            intro pair member same
            rw [beq_iff_eq] at same
            exact away (same ▸ List.mem_map_of_mem (List.mem_reverse.mp member))
          refine ⟨?_, ?_⟩
          · rw [Keyspace.putAll_values, unwritten]
            rfl
          · rw [Keyspace.putAll_deadlines]
      | mget keys =>
          cases ran
          exact .lookAll away
      | get other =>
          cases ran
          exact .look (List.ne_of_not_mem_cons away)
      | del keys =>
          cases ran
          exact ⟨if_neg away, rfl⟩
      | flushdb => exact absurd (.inl rfl) kept
      | flushall => exact absurd (.inr rfl) kept
      | zadd other count =>
          rw [run] at ran
          split at ran <;> cases ran
          exact ⟨rfl, rfl⟩
      | save | select | refused =>
          cases ran
          exact ⟨rfl, rfl⟩
      | setnx | existing | hset | hget | push | pop | llen => cases own

/-! ## Between the two commands -/

/-- The moment is no command on the key, and none that empties its database. -/
def Away (idx : Nat) (key : Bytes) (sys : FkSystem) : Moment → Prop
  | .serve (.command client args) => ∀ out, sys.conns client = some out →
      cmdOf args ≠ .flushall ∧ (out.dbIdx = idx → key ∉ (cmdOf args).keys ∧ cmdOf args ≠ .flushdb)
  | _ => True

/-- The key has the value and the deadline; or it was removed after a reading past its deadline. -/
def FkSvr.Pending (start idx : Nat) (key value : Bytes) (deadline : Int) (svr : FkSvr) : Prop :=
  ((svr.spaces idx).values key = some (.str value) ∧
    (svr.spaces idx).deadlines key = some deadline) ∨
    ((svr.spaces idx).values key = none ∧ (svr.spaces idx).deadlines key = none ∧
      ∃ reading, start ≤ reading ∧ reading < svr.readings ∧ deadline < svr.clock reading)

section Between

variable {fkCmdEval : Handler} {maxWbuf start idx client : Nat} {sys next : FkSystem}
  {svr final : FkSvr} {key value : Bytes} {deadline : Int} {args : List Bytes}

theorem FkSvr.Pending.same (pending : svr.Pending start idx key value deadline)
    (same : (svr.spaces idx).SameAt (final.spaces idx) key)
    (later : svr.readings ≤ final.readings) (clock : final.clock = svr.clock) :
    final.Pending start idx key value deadline := by
  rcases pending with ⟨held, limit⟩ | ⟨gone, untimed, reading, after, before, overdue⟩
  · exact .inl ⟨same.1.trans held, same.2.trans limit⟩
  · exact .inr ⟨same.1.trans gone, same.2.trans untimed, reading, after,
      Nat.lt_of_lt_of_le before later, clock ▸ overdue⟩

theorem FkSvr.Pending.sweep (pending : svr.Pending start idx key value deadline)
    (began : start ≤ svr.readings) (kept : SweepKeeps ArgName svr final) :
    final.Pending start idx key value deadline := by
  have clock : final.clock = svr.clock := congrArg (fun parts => parts.2.2.2.2.1) kept.frame
  rcases kept.expires idx key with same |
      ⟨⟨other, reading, limit, after, before, overdue⟩, gone, untimed⟩
  · exact pending.same same kept.readings clock
  · rcases pending with ⟨_, held⟩ | ⟨_, none, _⟩
    · obtain rfl := Option.some.inj (held.symm.trans limit)
      exact .inr ⟨gone, untimed, reading, Nat.le_trans began after, before, clock ▸ overdue⟩
    · rw [none] at limit
      cases limit

theorem after_away {cmd : Cmd} {dbcnt own : Nat} {clock : Nat → Int} {spaces : Nat → Keyspace}
    {answer : Answer} (inside : idx < dbcnt) (kept : cmd ≠ .flushall)
    (away : own = idx → key ∉ cmd.keys ∧ cmd ≠ .flushdb)
    (ran : cmd.run dbcnt clock (spaces own) = some answer) :
    (spaces idx).SameAt (cmd.after dbcnt own spaces answer.space idx) key := by
  by_cases same : own = idx
  · subst same
    obtain ⟨named, full⟩ := away rfl
    rw [Cmd.after_own inside ran]
    refine Cmd.run_away named ?_ ran
    rintro (empties | empties)
    · exact full empties
    · exact kept empties
  · rw [Cmd.after_other inside same, if_neg kept]
    exact ⟨rfl, rfl⟩

/-- A command on other keys. -/
theorem Commanded.away (commanded : Commanded fkCmdEval sys client args next)
    (inside : idx < sys.svr.dbcnt) (away : Away idx key sys (.serve (.command client args))) :
    (sys.svr.spaces idx).SameAt (next.svr.spaces idx) key ∧
      sys.svr.readings ≤ next.svr.readings := by
  cases commanded with
  | absent => exact ⟨⟨rfl, rfl⟩, Nat.le_refl _⟩
  | @refused out answer part count wbuf after connected ran queued cut leaves =>
      obtain ⟨kept, named⟩ := away out connected
      refine ⟨?_, Nat.le_trans (Nat.le_add_right ..) (Nat.le_of_eq leaves.readings.symm)⟩
      change (sys.svr.spaces idx).SameAt (after.svr.spaces idx) key
      rw [leaves.holds.spaces_eq]
      refine after_away inside (Cmd.cut_ne_flushall kept) (fun own => ?_) cut
      obtain ⟨apart, full⟩ := named own
      refine ⟨fun member => apart (Cmd.keys_cut _ _ member), fun empties => ?_⟩
      rcases Cmd.empties_cut (.inl empties) with same | same
      · exact full same
      · exact kept same
  | @done out answer wbuf after connected ran queued leaves =>
      obtain ⟨kept, named⟩ := away out connected
      refine ⟨?_, Nat.le_trans (Nat.le_add_right ..) (Nat.le_of_eq leaves.readings.symm)⟩
      change (sys.svr.spaces idx).SameAt (after.svr.spaces idx) key
      rw [leaves.holds.spaces_eq]
      exact after_away inside kept named ran

/-- What holds between the two commands. -/
structure FkSystem.Waits (start idx : Nat) (key value : Bytes) (deadline : Int)
    (sys : FkSystem) : Prop where
  sound : sys.Sound
  inside : idx < sys.svr.dbcnt
  began : start ≤ sys.svr.readings
  pending : sys.svr.Pending start idx key value deadline

theorem FkSystem.Waits.moment {moment : Moment} (waits : sys.Waits start idx key value deadline)
    (admitted : moment.Admitted) (away : Away idx key sys moment)
    (stepped : sys.moment fkCmdEval maxWbuf moment = some next) :
    next.Waits start idx key value deadline := by
  obtain ⟨sound, dbcnt⟩ := FkSystem.moment_sound (Nat.zero_lt_of_lt waits.inside) admitted
    waits.sound stepped
  have inside : idx < next.svr.dbcnt := Nat.lt_of_lt_of_eq waits.inside dbcnt.symm
  cases moment with
  | serve event =>
      cases event with
      | command client args =>
          have commanded := FkSystem.command_commanded admitted waits.sound.ok
            waits.sound.timed stepped
          obtain ⟨same, later⟩ := commanded.away waits.inside away
          exact ⟨sound, inside, Nat.le_trans waits.began later,
            waits.pending.same same later commanded.clock⟩
      | connect client | sent client count | close client =>
          cases stepped
          exact ⟨sound, inside, waits.began, waits.pending⟩
  | sweep rand fuel =>
      obtain ⟨final, called, rfl⟩ := Option.map_eq_some_iff.mp stepped
      have kept := @sweepLoop_keeps ArgName rand 0 fuel ⟨sys.svr, 0, []⟩ final waits.sound.ok
        waits.sound.timed called
      exact ⟨sound, inside, Nat.le_trans waits.began kept.readings,
        waits.pending.sweep waits.began kept⟩

/-- `GET` finds the value as long as the deadline is not over. -/
theorem FkSystem.Waits.get (waits : sys.Waits start idx key value deadline) {out : FkConnOut}
    (own : out.dbIdx = idx) {name : Bytes} (named : fkStr2upper name = ascii "GET")
    (latest : ∀ reading, start ≤ reading → reading < sys.svr.readings →
      sys.svr.clock reading ≤ sys.svr.clock sys.svr.readings) :
    RepliesWith (procArgs fkCmdEval [name, key] ⟨sys.svr, out⟩) ⟨sys.svr, out⟩
      (if sys.svr.clock sys.svr.readings ≤ deadline then .bulk value else .nil) := by
  subst own
  have dispatched := @procArgs_dispatched ArgName fkCmdEval ⟨sys.svr, out⟩ sys.svr.spaces
    [name, key] (List.cons_ne_nil _ _) (by rw [List.headD_cons, named]; decide) waits.sound.ok
      waits.sound.timed.holds
  have found : getReply ((sys.svr.spaces out.dbIdx).look (Work.clockOn ⟨sys.svr, out⟩) key).found =
      if sys.svr.clock sys.svr.readings ≤ deadline then .bulk value else .nil := by
    unfold Keyspace.look
    rcases waits.pending with ⟨held, limit⟩ | ⟨gone, untimed, reading, after, before, overdue⟩
    · rw [limit]
      dsimp only
      change getReply (Looked.found (if deadline < sys.svr.clock sys.svr.readings then _ else _)) =
        _
      split
      · next late => rw [if_neg (Int.not_le.mpr late)]; rfl
      · next alive =>
          rw [if_pos (Int.not_lt.mp alive)]
          dsimp only
          rw [held]
          rfl
    · have past := latest reading after before
      rw [untimed, if_neg (by omega)]
      dsimp only
      rw [gone]
      rfl
  have ran : Work.answer ⟨sys.svr, out⟩ sys.svr.spaces (cmdOf [name, key]) =
      some ⟨getReply ((sys.svr.spaces out.dbIdx).look (Work.clockOn ⟨sys.svr, out⟩) key).found,
        ((sys.svr.spaces out.dbIdx).look (Work.clockOn ⟨sys.svr, out⟩) key).left,
        ((sys.svr.spaces out.dbIdx).look (Work.clockOn ⟨sys.svr, out⟩) key).readings⟩ := by
    rw [cmdOf_get named]
    rfl
  rw [← found]
  exact dispatched.repliesWith ran

end Between

/-! ## The two commands -/

/-- A run of the server with a `SETEX` that is answered, and a `GET` of its key later on.  In
between there is no command on the key, and no reading of the clock is later than that of
the `GET`. -/
structure SetexRun (key value : Bytes) (time secs : Int) where
  fkCmdEval : Handler
  maxWbuf : Nat
  dbcnt : Nat
  blogOn : Bool
  clock : Nat → Int
  junk : Nat → UInt8
  before : List Moment
  sys : FkSystem
  client : Nat
  out : FkConnOut
  setex : Bytes
  first : FkSystem
  between : List Moment
  final : FkSystem
  asker : FkConnOut
  get : Bytes
  positive : 0 < dbcnt
  admitted : ∀ moment ∈ before ++ between, moment.Admitted
  reached : run (FkSystem.moment fkCmdEval maxWbuf) (fkSystemInit dbcnt blogOn clock junk)
    before = some sys
  connected : sys.conns client = some out
  named : fkStr2upper setex = ascii "SETEX"
  request : Admitted [setex, key, signedDecimal secs, value]
  now : sys.svr.clock sys.svr.readings = time
  stored : sys.command fkCmdEval client [setex, key, signedDecimal secs, value] = some first
  answered : (first.conns client).isSome
  away : Throughout (FkSystem.moment fkCmdEval maxWbuf) (Away out.dbIdx key) first between
  passed : run (FkSystem.moment fkCmdEval maxWbuf) first between = some final
  selected : asker.dbIdx = out.dbIdx
  asks : fkStr2upper get = ascii "GET"
  long : InLong (final.svr.clock final.svr.readings)
  latest : ∀ reading, first.svr.readings ≤ reading → reading < final.svr.readings →
    final.svr.clock reading ≤ final.svr.clock final.svr.readings

/-- The `GET` answers the value up to the deadline, and nothing after it. -/
def SetexRun.Right {key value : Bytes} {time secs : Int}
    (run : SetexRun key value time secs) : Prop :=
  RepliesWith (procArgs run.fkCmdEval [run.get, key] ⟨run.final.svr, run.asker⟩)
    ⟨run.final.svr, run.asker⟩ (if run.final.svr.clock run.final.svr.readings ≤ time +
      1000 * secs then .bulk value else .nil)

section Setex

variable {key value : Bytes} {time secs : Int}

theorem setex_request {name exp : Bytes} (named : fkStr2upper name = ascii "SETEX") :
    cmdOf [name, key, exp, value] = .setex key exp value := by
  rw [show cmdOf [name, key, exp, value] = Cmd.read (fkStr2upper name) [key, exp, value] from rfl,
    named]
  rfl

/-- What a `SETEX` leaves whose client is still connected. -/
theorem Commanded.setex {fkCmdEval : Handler} {sys next : FkSystem} {client : Nat}
    {args : List Bytes} {out : FkConnOut} {exp : Bytes}
    (commanded : Commanded fkCmdEval sys client args next) (inside : out.dbIdx < sys.svr.dbcnt)
    (connected : sys.conns client = some out) (answered : (next.conns client).isSome)
    (asked : cmdOf args = .setex key exp value) :
    (next.svr.spaces out.dbIdx).values key = some (.str value) ∧
      (next.svr.spaces out.dbIdx).deadlines key = some
      (toInt64 (strtol exp * 1000 + sys.svr.clock sys.svr.readings)) := by
  cases commanded with
  | absent gone =>
      rw [connected] at gone
      cases gone
  | refused =>
      change (Function.update sys.conns client none client).isSome at answered
      rw [Function.update_self] at answered
      cases answered
  | @done other answer wbuf after linked ran queued leaves =>
      obtain rfl := Option.some.inj (connected.symm.trans linked)
      change (after.svr.spaces out.dbIdx).values key = _ ∧
        (after.svr.spaces out.dbIdx).deadlines key = _
      rw [leaves.holds.spaces_eq]
      change ((cmdOf args).after sys.svr.dbcnt out.dbIdx sys.svr.spaces answer.space
        out.dbIdx).values key = _ ∧
        ((cmdOf args).after sys.svr.dbcnt out.dbIdx sys.svr.spaces answer.space
          out.dbIdx).deadlines key = _
      rw [Cmd.after_own inside ran]
      rw [asked] at ran
      cases ran
      exact ⟨Function.update_self .., Function.update_self ..⟩

theorem SetexRun.first_waits (run : SetexRun key value time secs) :
    run.first.Waits run.first.svr.readings run.out.dbIdx key value
      (toInt64 (saturate64 secs * 1000 + time)) := by
  obtain ⟨sound, positive⟩ :=
    fkSystem_moments_sound run.positive (List.forall_mem_append.mp run.admitted).1 run.reached
  have inside := sound.idx run.client run.out run.connected
  have commanded := FkSystem.command_commanded run.request sound.ok sound.timed run.stored
  obtain ⟨later, dbcnt⟩ := @FkSystem.step_sound run.fkCmdEval run.maxWbuf run.sys run.first
    (.command run.client _) positive run.request sound run.stored
  have stored := commanded.setex inside run.connected run.answered (setex_request run.named)
  rw [strtol_signedDecimal, run.now] at stored
  exact ⟨later, Nat.lt_of_lt_of_eq inside dbcnt.symm, Nat.le_refl _, .inl stored⟩

theorem SetexRun.waits (run : SetexRun key value time secs) :
    run.final.Waits run.first.svr.readings run.out.dbIdx key value
      (toInt64 (saturate64 secs * 1000 + time)) := by
  refine run_keeps (fun sys moment next waits admitted away stepped => ?_) run.first_waits
    (List.forall_mem_append.mp run.admitted).2 run.away run.passed
  exact waits.moment admitted away stepped

/-- What the `GET` answers. -/
theorem SetexRun.replies (run : SetexRun key value time secs) :
    RepliesWith (procArgs run.fkCmdEval [run.get, key] ⟨run.final.svr, run.asker⟩)
      ⟨run.final.svr, run.asker⟩ (if run.final.svr.clock run.final.svr.readings ≤ toInt64
        (saturate64 secs * 1000 + time) then .bulk value else .nil) :=
  run.waits.get run.selected run.asks run.latest

/-- Two replies of different lengths that are both accepted. -/
theorem not_repliesWith_both {outcome : Outcome Work Unit} {work : Work} {first second : Reply}
    (room : (work.out.wbuf.load.reserveAll work.out.wbuf.highwat
      (first.calls.map Rsp.len)).isSome = true)
    (space : (work.out.wbuf.load.reserveAll work.out.wbuf.highwat
      (second.calls.map Rsp.len)).isSome = true)
    (differ : (first.calls.map Rsp.len).sum ≠ (second.calls.map Rsp.len).sum)
    (one : RepliesWith outcome work first) :
    ¬ RepliesWith outcome work second := by
  intro other
  obtain ⟨left, queued⟩ := @queueAll_of_reserve work.svr.junk _ _ room
  obtain ⟨right, stored⟩ := @queueAll_of_reserve work.svr.junk _ _ space
  unfold RepliesWith at one other
  rw [queued] at one
  rw [stored] at other
  obtain ⟨after, called⟩ := one
  obtain ⟨later, again⟩ := other
  have same : left = right := by
    rw [called] at again
    injection again with _ works
    exact congrArg (fun work => work.out.wbuf) works
  obtain ⟨_, before⟩ := queued_of_ok queued
  obtain ⟨_, behind⟩ := queued_of_ok stored
  have payloads := before.payload.symm.trans ((congrArg FkBuf.payload same).trans behind.payload)
  have lengths := congrArg List.length (List.append_cancel_left payloads)
  simp only [List.length_flatMap, length_printed] at lengths
  exact differ lengths

/-- The write buffer of a new connection has space for the value. -/
theorem bulk_room (short : value.length ≤ fkArgHighwat) :
    ((fkBufCreate fkBufInitLen 1024).load.reserveAll 1024
      ((Reply.bulk value).calls.map Rsp.len)).isSome = true := by
  have digits := fkUtilDecimalDigit_le value.length
  have limit : fkArgHighwat = 2 ^ 20 := rfl
  obtain ⟨grown, power⟩ := fkUtilMinPower_isSome
    (show 0 + (fkUtilDecimalDigit (toInt32 value.length) + 3) + (value.length + 2) <
      2 ^ 30 by omega)
  change (Space.reserveAll 1024 ⟨16, 0⟩ [fkUtilDecimalDigit (toInt32 value.length) + 3,
    value.length + 2]).isSome = true
  rw [Space.reserveAll, Space.reserve_fits (by dsimp only; omega), Option.bind_some,
    Space.reserveAll]
  by_cases small : 0 + (fkUtilDecimalDigit (toInt32 value.length) + 3) + (value.length + 2) ≤ 16
  · rw [Space.reserve_fits small]
    rfl
  · rw [Space.reserve_grows small (show 16 < 1024 by decide), power]
    rfl

/-- A new connection can tell a value from nothing. -/
theorem not_bulk_and_nil {outcome : Outcome Work Unit} {work : Work}
    (fresh : work.out.wbuf = fkBufCreate fkBufInitLen 1024)
    (short : value.length ≤ fkArgHighwat) (found : RepliesWith outcome work (.bulk value)) :
    ¬ RepliesWith outcome work .nil := by
  refine not_repliesWith_both ?_ ?_ ?_ found
  · rw [fresh]
    exact bulk_room short
  · rw [fresh]
    decide +kernel
  · have digits := List.length_pos_of_ne_nil (decimal_ne_nil (toInt32 value.length).natAbs)
    have nil : (Reply.nil.calls.map Rsp.len).sum = 5 := by decide +kernel
    have bulk : ((Reply.bulk value).calls.map Rsp.len).sum = fkUtilDecimalDigit
        (toInt32 value.length) + 3 + (value.length + 2) := rfl
    rw [nil, bulk, fkUtilDecimalDigit]
    omega

/-- The first connection of a server whose clock shows two times. -/
def askedConn : FkConnOut := (fkConnCreate .real 1024).toFkConnOut

def askedSystem (time reading : Int) : FkSystem :=
  (fkSystemInit 1 false (fun index => if index = 0 then time else reading) fun _ => 0).setConn 0
    (some askedConn)

theorem askedSystem_sound (time reading : Int) : (askedSystem time reading).Sound := by
  have init := fkSystemInit_sound 1 false (fun index => if index = 0 then time else reading)
    fun _ => 0
  refine ⟨init.ok, init.timed, FkSystem.each_setConn nofun fun out same => ?_⟩
  rw [← Option.some.inj same]
  exact Nat.one_pos

/-- A run with a given reading of the clock at the `GET`. -/
theorem exists_setexRun {reading : Int}
    (fits : ∀ arg ∈ [key, signedDecimal secs, value], arg.length ≤ fkArgHighwat)
    (long : InLong reading) :
    ∃ run : SetexRun key value time secs, run.final.svr.clock run.final.svr.readings = reading ∧
      run.asker.wbuf = fkBufCreate fkBufInitLen 1024 := by
  have sound := askedSystem_sound time reading
  have name : fkStr2upper (ascii "SETEX") = ascii "SETEX" := by decide
  have asked : cmdOf [ascii "SETEX", key, signedDecimal secs, value] = .setex key
      (signedDecimal secs) value := setex_request name
  have request : Admitted [ascii "SETEX", key, signedDecimal secs, value] := by
    refine ⟨List.cons_ne_nil _ _, by simp [fkArgCntHighwat], ?_, by rw [List.headD_cons]; decide⟩
    intro arg member
    rcases List.mem_cons.mp member with rfl | member
    · decide
    · exact fits arg member
  have linked : (askedSystem time reading).conns 0 = some askedConn := rfl
  obtain ⟨wbuf, queued⟩ := @queueAll_of_reserve (fun _ => 0) askedConn.wbuf
    (Reply.status fkRspOk).calls (by decide +kernel)
  obtain ⟨answer, ran, said, once⟩ :
      ∃ answer, Work.answer ⟨(askedSystem time reading).svr, askedConn⟩
      (askedSystem time reading).svr.spaces
        (cmdOf [ascii "SETEX", key, signedDecimal secs, value]) = some answer ∧
        answer.reply = .status fkRspOk ∧ answer.readings = 1 := by
    rw [asked]
    exact ⟨_, rfl, rfl, rfl⟩
  rw [← said] at queued
  have accepted := @accepted_of_queued (fun _ => pure ()) _ 0 _ askedConn _ wbuf request sound
    linked ran queued
  obtain ⟨other, grown, after, again, _, leaves, stored⟩ :=
    FkSystem.command_accepted request sound linked accepted
  have readings : after.svr.readings = 1 := by
    obtain rfl := Option.some.inj (again.symm.trans ran)
    rw [leaves.readings, once]
    rfl
  have clock : after.svr.clock = fun index => if index = 0 then time else reading :=
    congrArg (fun parts => parts.2.2.2.2.1) leaves.frame
  have last : after.svr.clock after.svr.readings = reading := by
    rw [clock, readings]
    rfl
  refine ⟨{
    fkCmdEval := fun _ => pure ()
    maxWbuf := 1024
    dbcnt := 1
    blogOn := false
    clock := fun index => if index = 0 then time else reading
    junk := fun _ => 0
    before := [.serve (.connect 0)]
    sys := askedSystem time reading
    client := 0
    out := askedConn
    setex := ascii "SETEX"
    first := _
    between := []
    final := _
    asker := askedConn
    get := ascii "GET"
    positive := Nat.one_pos
    admitted := List.forall_mem_singleton.mpr trivial
    reached := rfl
    connected := linked
    named := name
    request := request
    now := rfl
    stored := stored
    answered := ?_
    away := trivial
    passed := rfl
    selected := rfl
    asks := by decide
    long := last.symm ▸ long
    latest := fun index after before => absurd after (Nat.not_le.mpr before) }, last, rfl⟩
  change (Function.update (askedSystem time reading).conns 0 _ 0).isSome = true
  rw [Function.update_self]
  rfl

end Setex

theorem fkCmdSetex_right_iff {key value : Bytes} {time secs : Int} (long : InLong time)
    (fits : ∀ arg ∈ [key, signedDecimal secs, value], arg.length ≤ fkArgHighwat) :
    (∀ run : SetexRun key value time secs, run.Right) ↔ DeadlineFits time secs := by
  rw [← deadline_iff long]
  constructor
  · intro right reading inside
    obtain ⟨run, clock, fresh⟩ := @exists_setexRun key value time secs reading fits inside
    have one := run.replies
    have other := right run
    unfold SetexRun.Right at other
    rw [clock] at one other
    have tells := fun outcome => @not_bulk_and_nil value outcome ⟨run.final.svr, run.asker⟩ fresh
      (fits value (by simp))
    by_cases stored : reading ≤ toInt64 (saturate64 secs * 1000 + time)
    · by_cases wanted : reading ≤ time + 1000 * secs
      · exact iff_of_true stored wanted
      · rw [if_pos stored] at one
        rw [if_neg wanted] at other
        exact absurd other (tells _ one)
    · by_cases wanted : reading ≤ time + 1000 * secs
      · rw [if_neg stored] at one
        rw [if_pos wanted] at other
        exact absurd one (tells _ other)
      · exact iff_of_false stored wanted
  · intro same run
    have agree := same (run.final.svr.clock run.final.svr.readings) run.long
    unfold SetexRun.Right
    rw [← if_congr agree rfl rfl]
    exact run.replies

theorem fkCmdSetex_right_soon : InLong 0 ∧
    (∀ arg ∈ [ascii "key", signedDecimal 10, ascii "value"], arg.length ≤ fkArgHighwat) ∧
      ((∀ run : SetexRun (ascii "key") (ascii "value") 0 10, run.Right) ↔ DeadlineFits 0 10) :=
  have long : InLong 0 := ⟨by decide, by decide⟩
  ⟨long, by decide +kernel, fkCmdSetex_right_iff long (by decide +kernel)⟩

/-- The largest number of seconds ends a second before it begins. -/
theorem fkCmdSetex_wraps : ¬ ∀ run :
    SetexRun (ascii "key") (ascii "value") 1000 9223372036854775807, run.Right := by
  intro right
  obtain ⟨run, clock, fresh⟩ :=
    @exists_setexRun (ascii "key") (ascii "value") 1000 9223372036854775807 1000 (by decide +kernel)
      ⟨by decide, by decide⟩
  have gone := run.replies
  have wanted := right run
  unfold SetexRun.Right at wanted
  rw [clock, if_neg (by decide)] at gone
  rw [clock, if_pos (by decide)] at wanted
  exact not_bulk_and_nil fresh (by decide) wanted gone

end Freekick
