import Freekick.Store.Lasting
import Freekick.Store.OneReply
import Freekick.Store.Queue
import Freekick.Store.Terms

/-!
# Requests that do no harm

A request other than `EVAL` and `ZADD` has an answer on every server that is in order, and its
calls fit a write buffer or are refused.  A write buffer may grow beyond its limit once, and
not by more than a reply.
-/

namespace Freekick

open Lib.Call

/-! ## Write buffers -/

/-- A write buffer that has grown beyond its limit once at most. -/
structure Roomy (maxWbuf : Nat) (wbuf : FkBuf) : Prop where
  highwat : wbuf.highwat = maxWbuf
  initLen : wbuf.initLen = fkBufInitLen
  len : wbuf.len ≤ 2 * (maxWbuf + fkArgHighwat + 2)

theorem fkUtilMinPower_le_double {n power : Nat} (positive : 0 < n)
    (known : fkUtilMinPower n = some power) :
    power ≤ 2 * n := by
  rcases fkUtilMinPower_cases known with ⟨zero, _⟩ | ⟨nonzero, _, rfl⟩
  · exact absurd zero (Nat.ne_of_gt positive)
  · have least : 2 ^ n.log2 ≤ n := Nat.log2_self_le nonzero
    rw [Nat.pow_succ]
    omega

namespace Roomy

variable {junk : Nat → UInt8} {maxWbuf : Nat} {wbuf after : FkBuf}

theorem create (maxWbuf : Nat) : Roomy maxWbuf (fkBufCreate fkBufInitLen maxWbuf) where
  highwat := rfl
  initLen := rfl
  len := by
    have short : fkBufInitLen ≤ fkArgHighwat := by decide
    change fkBufInitLen ≤ _
    omega

theorem lowInc (roomy : Roomy maxWbuf wbuf) (count : Nat) :
    Roomy maxWbuf (wbuf.fkBufLowInc count) :=
  ⟨roomy.highwat, roomy.initLen, roomy.len⟩

theorem shrink (roomy : Roomy maxWbuf wbuf) : Roomy maxWbuf wbuf.fkBufShrink := by
  unfold FkBuf.fkBufShrink
  split
  · next long =>
      constructor
      · exact (FkBuf.fkBufShift_highwat wbuf).trans roomy.highwat
      · exact (FkBuf.fkBufShift_initLen wbuf).trans roomy.initLen
      · exact Nat.le_trans long.1 roomy.len
  · exact roomy

/-- The buffer grows below its limit only, and not to more than twice what is needed. -/
theorem queue (roomy : Roomy maxWbuf wbuf) {rsp : Rsp} (short : rsp.len ≤ fkArgHighwat + 2)
    (queued : rsp.queue junk wbuf = .ok () after) : Roomy maxWbuf after := by
  obtain ⟨highwat, initLen⟩ := WbufOp.queue_bounds (.inl queued)
  have within : wbuf.fkBufPayloadLen ≤ wbuf.len := by
    have highLe := wbuf.high_le
    have used : wbuf.fkBufPayloadLen = wbuf.high - wbuf.low := rfl
    omega
  have spec := Rsp.queue_reserve junk rsp wbuf
  have accepted : ¬ wbuf.Refuses rsp.len := by
    intro refused
    rw [Rsp.queue_refused refused] at queued
    cases queued
  refine ⟨highwat.trans roomy.highwat, initLen.trans roomy.initLen, ?_⟩
  rcases FkBuf.reserve_of_accepted accepted with ⟨fits, reserved⟩ | ⟨beyond, grows, reserved⟩
  · rw [reserved, queued] at spec
    obtain ⟨same, called, load, _⟩ := spec
    cases called
    have length : after.len = wbuf.len := congrArg Space.len load
    exact length.trans_le roomy.len
  · rw [reserved, queued] at spec
    cases power : fkUtilMinPower (wbuf.fkBufPayloadLen + rsp.len) with
    | none =>
        rw [power] at spec
        dsimp only [Option.map_none] at spec
        rw [if_pos grows] at spec
        cases spec
    | some grown =>
        rw [power] at spec
        obtain ⟨same, called, load, _⟩ := spec
        cases called
        have length : after.len = grown := congrArg Space.len load
        have doubled := fkUtilMinPower_le_double (Nat.zero_lt_of_lt beyond) power
        have limit := roomy.highwat
        omega

theorem queueAll (roomy : Roomy maxWbuf wbuf) {rsps : List Rsp}
    (short : ∀ rsp ∈ rsps, rsp.len ≤ fkArgHighwat + 2)
    (queued : Freekick.queueAll junk rsps wbuf = .ok () after) : Roomy maxWbuf after := by
  induction rsps generalizing wbuf with
  | nil =>
      cases queued
      exact roomy
  | cons rsp rest ih =>
      obtain ⟨here, there⟩ := List.forall_mem_cons.mp short
      obtain ⟨_, middle, first, later⟩ := Act.bind_eq_ok queued
      exact ih (roomy.queue here first) there later

end Roomy

/-! ## The server on commands -/

/-- The databases are in order, and so are the write buffers. -/
structure FkSystem.Hale (maxWbuf : Nat) (sys : FkSystem) : Prop where
  sound : sys.Sound
  positive : 0 < sys.svr.dbcnt
  roomy : ∀ client out, sys.conns client = some out → Roomy maxWbuf out.wbuf

/-- A request that no handler crashes on. -/
structure Harmless (args : List Bytes) : Prop where
  notEval : fkStr2upper (args.headD []) ≠ ascii "EVAL"
  notZadd : fkStr2upper (args.headD []) ≠ ascii "ZADD"

instance (args : List Bytes) : Decidable (Harmless args) :=
  decidable_of_iff (fkStr2upper (args.headD []) ≠ ascii "EVAL" ∧
    fkStr2upper (args.headD []) ≠ ascii "ZADD")
    ⟨fun both => ⟨both.1, both.2⟩, fun harmless => ⟨harmless.notEval, harmless.notZadd⟩⟩

section Commands

variable {fkCmdEval : Handler} {maxWbuf : Nat} {sys next : FkSystem} {client : Nat}
  {args : List Bytes}

theorem Harmless.not_missing (harmless : Harmless args) (work : Work) :
    ¬ ZaddMissing work args := by
  have asks := cmdOf_asks args
  unfold ZaddMissing
  generalize cmdOf args = cmd at asks
  generalize called : fkStr2upper (args.headD []) = name at asks
  generalize args.tail = rest at asks
  cases asks with
  | zadd => exact absurd called harmless.notZadd
  | _ => exact id

theorem Commanded.roomy (commanded : Commanded fkCmdEval sys client args next)
    (admissible : Admissible args) (hale : sys.Hale maxWbuf) :
    ∀ other out, next.conns other = some out → Roomy maxWbuf out.wbuf := by
  cases commanded with
  | absent => exact hale.roomy
  | refused => exact FkSystem.each_setConn hale.roomy nofun
  | done connected ran queued leaves =>
      refine FkSystem.each_setConn hale.roomy ?_
      rintro _ ⟨⟩
      exact (hale.roomy client _ connected).queueAll
        (admissible.fits hale.sound.ok ran).calls_len queued

theorem FkSystem.Hale.moment {moment : Moment} (hale : sys.Hale maxWbuf)
    (admitted : moment.Admitted) (stepped : sys.moment fkCmdEval maxWbuf moment = some next) :
    next.Hale maxWbuf := by
  obtain ⟨sound, dbcnt⟩ := FkSystem.moment_sound hale.positive admitted hale.sound stepped
  refine ⟨sound, Nat.lt_of_lt_of_eq hale.positive dbcnt.symm, ?_⟩
  cases moment with
  | sweep rand fuel =>
      obtain ⟨final, _, rfl⟩ := Option.map_eq_some_iff.mp stepped
      exact hale.roomy
  | serve event =>
      cases event with
      | connect client =>
          cases stepped
          refine FkSystem.each_setConn hale.roomy ?_
          rintro _ ⟨⟩
          exact .create maxWbuf
      | command client args =>
          have commanded := FkSystem.command_commanded admitted hale.sound.ok
            hale.sound.timed stepped
          exact commanded.roomy admitted.admissible hale
      | sent client count =>
          cases stepped
          refine FkSystem.each_setConn hale.roomy fun out moved => ?_
          obtain ⟨old, connected, rfl⟩ := Option.map_eq_some_iff.mp moved
          exact ((hale.roomy client old connected).lowInc count).shrink
      | close client =>
          cases stepped
          exact FkSystem.each_setConn hale.roomy nofun

/-- A request that does no harm is run, whatever is stored and however full the buffers are. -/
theorem FkSystem.Hale.command_succeeds (hale : sys.Hale maxWbuf) (small : maxWbuf < 2 ^ 29)
    (admissible : Admissible args) (harmless : Harmless args) :
    ∃ next, sys.command fkCmdEval client args = some next := by
  unfold FkSystem.command
  cases connected : sys.conns client with
  | none => exact ⟨sys, rfl⟩
  | some out =>
      have dispatched := @procArgs_dispatched ArgName fkCmdEval ⟨sys.svr, out⟩ sys.svr.spaces args
        (List.length_pos_iff.mp admissible.pos) harmless.notEval hale.sound.ok
          hale.sound.timed.holds
      dsimp only
      rw [fkConnProcCmd_args]
      generalize procArgs fkCmdEval args ⟨sys.svr, out⟩ = outcome at dispatched
      cases dispatched with
      | crashed crashes =>
          have missing :=
            (@answer_eq_none ⟨sys.svr, out⟩ args sys.svr.spaces hale.sound.timed.holds).mp crashes
          exact absurd missing (harmless.not_missing _)
      | @overflow answer ran queued =>
          have overflows := queueAll_eq_fault.mp queued
          rw [(hale.roomy client out connected).highwat] at overflows
          refine absurd overflows (Space.not_overflows small ?_ ?_)
          · intro len member
            obtain ⟨rsp, called, rfl⟩ := List.mem_map.mp member
            exact Nat.lt_of_le_of_lt ((admissible.fits hale.sound.ok ran).calls_len rsp called)
              (by decide)
          · have highLe := out.wbuf.high_le
            have used : out.wbuf.fkBufPayloadLen = out.wbuf.high - out.wbuf.low := rfl
            change out.wbuf.fkBufPayloadLen ≤ out.wbuf.len
            omega
      | refused => exact ⟨_, rfl⟩
      | done => exact ⟨_, rfl⟩

theorem fkSystemInit_hale {dbcnt : Nat} (positive : 0 < dbcnt) (maxWbuf : Nat) (blogOn : Bool)
    (clock : Nat → Int) (junk : Nat → UInt8) :
    (fkSystemInit dbcnt blogOn clock junk).Hale maxWbuf where
  sound := fkSystemInit_sound dbcnt blogOn clock junk
  positive := positive
  roomy := nofun

end Commands

end Freekick
