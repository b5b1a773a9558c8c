import Freekick.Server.Wakes

/-!
# What a client asks and what it is told

The requests of one client as a run of the server on commands, and notes beside such a run: the
requests of every client since it connected, the reply terms they were answered with and the
bytes that were sent.
-/

namespace Freekick

open Lib.Call Lib.Resume Lib.Steps

/-! ## Commands one after the other -/

/-- The requests of a client as moments. -/
def ask (client : Nat) (commands : List (List Bytes)) : List Moment :=
  commands.map fun args => .serve (.command client args)

section Commands

variable {fkCmdEval : Handler} {maxWbuf : Nat} {sys : FkSystem} {client : Nat}
  {commands : List (List Bytes)}

theorem ask_absent (absent : sys.conns client = none) :
    run (FkSystem.moment fkCmdEval maxWbuf) sys (ask client commands) = some sys := by
  induction commands with
  | nil => rfl
  | cons args rest ih =>
      have nothing : sys.moment fkCmdEval maxWbuf (.serve (.command client args)) = some sys := by
        change sys.command fkCmdEval client args = some sys
        rw [FkSystem.command, absent]
      rw [ask, List.map_cons, run, nothing]
      exact ih

/-- The system after commands of one client were run: the client stays while none has failed. -/
def FkSystem.ran (sys : FkSystem) (client : Nat) (exec : Work × List (List Bytes) × LoopEnd) :
    Option FkSystem :=
  match exec.2.2 with
  | .waits => some (({ sys with svr := exec.1.svr }).setConn client (some exec.1.out))
  | .closes => some (({ sys with svr := exec.1.svr }).setConn client none)
  | _ => none

theorem FkSystem.ran_crashes {exec : Work × List (List Bytes) × LoopEnd}
    (crashes : exec.2.2 = .crashes) :
    sys.ran client exec = none := by
  unfold FkSystem.ran
  rw [crashes]

theorem ask_connected {out : FkConnOut} (connected : sys.conns client = some out) :
    run (FkSystem.moment fkCmdEval maxWbuf) sys (ask client commands) =
      sys.ran client (execAll (fkConnProcCmd fkCmdEval) ⟨sys.svr, out⟩ commands) := by
  induction commands generalizing sys out with
  | nil =>
      have same : sys.setConn client (some out) = sys := by
        rw [FkSystem.setConn, ← connected, Function.update_eq_self]
      exact congrArg some same.symm
  | cons args rest ih =>
      rw [ask, List.map_cons, run, execAll]
      change (sys.command fkCmdEval client args).bind
        (fun next => run (FkSystem.moment fkCmdEval maxWbuf) next (ask client rest)) = _
      unfold FkSystem.command
      rw [connected]
      dsimp only
      cases called : fkConnProcCmd fkCmdEval ⟨sys.svr, out⟩ (args.map some) with
      | none => rfl
      | some pair =>
          obtain ⟨code, work⟩ := pair
          have later := @ih (({ sys with svr := work.svr }).setConn client (some work.out)) work.out
            (Function.update_self ..)
          have moved (exec : Work × List (List Bytes) × LoopEnd) :
              (({ sys with svr := work.svr }).setConn client (some work.out)).ran client exec =
                sys.ran client exec := by
            unfold FkSystem.ran FkSystem.setConn
            dsimp only
            rw [Function.update_idem, Function.update_idem]
          rw [moved] at later
          cases code with
          | err => exact ask_absent (Function.update_self ..)
          | ok => exact later
          | again => exact later
          | done => exact later

/-- A connection that is closed behind its commands is gone, whether the last one failed or not. -/
theorem ask_closed {out : FkConnOut} (connected : sys.conns client = some out)
    (ends : (execAll (fkConnProcCmd fkCmdEval) ⟨sys.svr, out⟩ commands).2.2 = .closes ∨
      (execAll (fkConnProcCmd fkCmdEval) ⟨sys.svr, out⟩ commands).2.2 = .waits) :
    run (FkSystem.moment fkCmdEval maxWbuf) sys
      (ask client commands ++ [.serve (.close client)]) =
      some (({ sys with
        svr := (execAll (fkConnProcCmd fkCmdEval) ⟨sys.svr, out⟩ commands).1.svr }).setConn
          client none) := by
  have again (svr : FkSvr) (conn : Option FkConnOut) :
      ((({ sys with svr := svr } : FkSystem)).setConn client conn).setConn client none =
        ({ sys with svr := svr } : FkSystem).setConn client none := by
    unfold FkSystem.setConn
    rw [Function.update_idem]
  rw [run_append, ask_connected connected, FkSystem.ran]
  rcases ends with closes | waits
  · rw [closes]
    exact congrArg some (again _ none)
  · rw [waits]
    exact congrArg some (again _ _)

end Commands

/-! ## What a client has asked for -/

/-- The requests of a client since it connected. -/
def asked (client : Nat) (commands : List (List Bytes)) : Moment → List (List Bytes)
  | .serve (.connect other) => if other = client then [] else commands
  | .serve (.command other args) => if other = client then commands ++ [args] else commands
  | _ => commands

def commandsOf (client : Nat) (moments : List Moment) : List (List Bytes) :=
  moments.foldl (asked client) []

theorem asked_ask (client : Nat) (before commands : List (List Bytes)) :
    (ask client commands).foldl (asked client) before = before ++ commands := by
  induction commands generalizing before with
  | nil => exact (List.append_nil before).symm
  | cons args rest ih =>
      change (ask client rest).foldl (asked client)
        (if client = client then before ++ [args] else before) = _
      rw [if_pos rfl, ih, List.append_assoc]
      rfl

theorem asked_other {client other : Nat} (apart : other ≠ client)
    (before commands : List (List Bytes)) :
    (ask other commands).foldl (asked client) before = before := by
  induction commands generalizing before with
  | nil => rfl
  | cons args rest ih =>
      change (ask other rest).foldl (asked client)
        (if other = client then before ++ [args] else before) = _
      rw [if_neg apart]
      exact ih before

/-! ## What a client is told -/

/-- The reply terms of the requests of a client since it connected, and the bytes that were sent
to it. -/
structure Spoken where
  terms : List Reply
  sent : Bytes

abbrev Notes := Nat → Spoken

def notesInit : Notes := fun _ => ⟨[], []⟩

namespace Notes

def answer (notes : Notes) (client : Nat) (term : Reply) : Notes :=
  Function.update notes client { notes client with terms := (notes client).terms ++ [term] }

def send (notes : Notes) (client : Nat) (bytes : Bytes) : Notes :=
  Function.update notes client { notes client with sent := (notes client).sent ++ bytes }

/-- What a moment adds. -/
def note (notes : Notes) (sys : FkSystem) : Moment → Notes
  | .serve (.connect client) => Function.update notes client ⟨[], []⟩
  | .serve (.command client args) =>
      match sys.conns client with
      | none => notes
      | some out =>
          match Work.answer ⟨sys.svr, out⟩ sys.svr.spaces (cmdOf args) with
          | none => notes
          | some answer => notes.answer client answer.reply
  | .serve (.sent client count) =>
      match sys.conns client with
      | none => notes
      | some out => notes.send client (out.wbuf.payload.take count)
  | _ => notes

/-- A command is answered and nothing is sent yet. -/
theorem note_command_sent (notes : Notes) (sys : FkSystem) (client : Nat) (args : List Bytes)
    (other : Nat) :
    (notes.note sys (.serve (.command client args)) other).sent = (notes other).sent := by
  unfold note
  dsimp only
  cases sys.conns client with
  | none => rfl
  | some out =>
      dsimp only
      cases Work.answer ⟨sys.svr, out⟩ sys.svr.spaces (cmdOf args) with
      | none => rfl
      | some answer =>
          change (Function.update notes client _ other).sent = _
          by_cases same : other = client
          · rw [same, Function.update_self]
          · rw [Function.update_of_ne same]

end Notes

/-- The server on commands with what its clients were told. -/
def FkSystem.noted (fkCmdEval : Handler) (maxWbuf : Nat) :
    FkSystem × Notes → Moment → Option (FkSystem × Notes) :=
  noting (FkSystem.moment fkCmdEval maxWbuf) Notes.note

/-- Moments in which nothing is sent. -/
def Moment.Silent : Moment → Prop
  | .serve (.command _ _) => True
  | .serve (.close _) => True
  | _ => False

theorem Notes.note_sent {notes : Notes} {sys : FkSystem} {client : Nat} {out : FkConnOut}
    (connected : sys.conns client = some out)
    (count : Nat) : notes.note sys (.serve (.sent client count)) = notes.send client
    (out.wbuf.payload.take count) := by
  unfold note
  dsimp only
  rw [connected]

theorem noted_silent {fkCmdEval : Handler} {maxWbuf : Nat} {start last : FkSystem × Notes}
    {moments : List Moment} (silent : ∀ moment ∈ moments, moment.Silent)
    (reached : run (FkSystem.noted fkCmdEval maxWbuf) start moments = some last)
    (client : Nat) : (last.2 client).sent = (start.2 client).sent := by
  refine @run_invariant _ _ _ _ _ _
    (fun pair : FkSystem × Notes => (pair.2 client).sent = (start.2 client).sent) _
    (fun pair moment next known good stepped => ?_) rfl silent reached
  obtain ⟨after, moved, rfl⟩ := Option.map_eq_some_iff.mp stepped
  cases moment with
  | sweep rand fuel => exact good.elim
  | serve event =>
      cases event with
      | command other args =>
          exact (Notes.note_command_sent pair.2 pair.1 other args client).trans known
      | close other => exact known
      | connect other => exact good.elim
      | sent other count => exact good.elim

/-! ## Bytes that `send` takes -/

theorem FkBuf.fkBufLowInc_add (buf : FkBuf) (first second : Nat) :
    (buf.fkBufLowInc first).fkBufLowInc second = buf.fkBufLowInc (first + second) := by
  obtain ⟨highwat, initLen, len, low, high, buffer, lowLe, highLe⟩ := buf
  simp only [fkBufLowInc, mk.injEq, true_and, and_true]
  omega

theorem FkBuf.fkBufLowInc_zero (buf : FkBuf) : buf.fkBufLowInc 0 = buf := by
  obtain ⟨highwat, initLen, len, low, high, buffer, lowLe, highLe⟩ := buf
  simp only [fkBufLowInc, mk.injEq, true_and, and_true]
  omega

/-- Whatever `send` returns, the bytes that it took came off the front. -/
theorem writeLoop_wbuf (results : List SendRt) (wbuf : FkBuf) :
    (writeLoop results wbuf).wbuf = wbuf.fkBufLowInc (writeLoop results wbuf).sent.length := by
  induction results generalizing wbuf with
  | nil => exact wbuf.fkBufLowInc_zero.symm
  | cons result rest ih =>
      rw [writeLoop_cons]
      split
      · exact wbuf.fkBufLowInc_zero.symm
      · cases result with
        | again => exact wbuf.fkBufLowInc_zero.symm
        | error => exact wbuf.fkBufLowInc_zero.symm
        | takes room =>
            have taken : (wbuf.payload.take (min (room + 1) wbuf.fkBufPayloadLen)).length =
                min (room + 1) wbuf.fkBufPayloadLen := by
              rw [List.length_take, FkBuf.length_payload]
              omega
            dsimp only
            rw [List.length_append, taken, ← FkBuf.fkBufLowInc_add]
            exact ih _

/-- They are the front. -/
theorem writeLoop_sent (results : List SendRt) (wbuf : FkBuf) :
    (writeLoop results wbuf).sent = wbuf.payload.take (writeLoop results wbuf).sent.length := by
  conv_rhs => rw [← writeLoop_bytes results wbuf]
  rw [List.take_left]

theorem fkConnWriteCb_sent (results : List SendRt) (link : FkLink) :
    (fkConnWriteCb results link).1 = link.wbuf.payload.take
    (fkConnWriteCb results link).1.length := by
  have sent : (fkConnWriteCb results link).1 = (writeLoop results link.wbuf).sent := by
    unfold fkConnWriteCb
    dsimp only
    split
    · rfl
    · split <;> rfl
  rw [sent]
  exact writeLoop_sent results link.wbuf

/-- What a write callback sends leaves the write buffer. -/
theorem fkConnWriteCb_leaves (results : List SendRt) (link : FkLink) :
    ∀ after, (fkConnWriteCb results link).2 = some after →
    after.rbuf = link.rbuf ∧ after.wbuf =
      (link.wbuf.fkBufLowInc (fkConnWriteCb results link).1.length).fkBufShrink := by
  intro after left
  unfold fkConnWriteCb at left ⊢
  dsimp only at left ⊢
  split at left
  · cases left
  · next fine =>
      rw [if_neg fine]
      split at left
      · next drained =>
          cases left
          rw [if_pos drained, ← writeLoop_wbuf]
          exact ⟨rfl, rfl⟩
      · next remaining =>
          cases left
          rw [if_neg remaining, ← writeLoop_wbuf]
          exact ⟨rfl, rfl⟩

end Freekick
