import Freekick.Net.Window

/-!
# Receiving: `fk_conn_recv_data` and `fk_conn_read_cb`

A read callback receives until the socket has no more than the read buffer takes, and
runs what is complete after every `recv`.  The read buffer grows to `FK_BUF_HIGHWAT` and
no further, and its payload is moved down only when it takes most of the buffer.
-/

namespace Freekick

open Lib.Resume

/-! ## The source -/

/-- What `recv` meets: up to `held + 1` bytes in the socket, none, the end of the connection
or another error. -/
inductive RecvRt where
  | holds (held : Nat)
  | again
  | closed
  | error
  deriving DecidableEq, Repr

/-- The bytes that the socket has, of those that are still to come. -/
def RecvRt.ready (result : RecvRt) (stream : Bytes) : Nat :=
  match result with
  | .holds held => min (held + 1) stream.length
  | _ => 0

/-- What `fk_conn_recv_data` returns.  It tells `full` and `lost` by the same
`FK_SVR_ERR`. -/
inductive Received where
  | full
  | lost
  | again
  | done
  | ok
  deriving DecidableEq, Repr

def Received.rt : Received → FkRt
  | .full => .err
  | .lost => .err
  | .again => .again
  | .done => .done
  | .ok => .ok

/-- `fk_conn_recv_data`, with the bytes that are still to come. -/
def fkConnRecvData (result : RecvRt) (conn : FkConnIn) (stream : Bytes) :
    Received × FkConnIn × Bytes :=
  let rbuf := conn.rbuf.ready
  let freeLen := rbuf.fkBufFreeLen
  if freeLen = 0 then (.full, { conn with rbuf := rbuf }, stream)
  else if result = .closed ∨ result = .error then (.lost, { conn with rbuf := rbuf }, stream)
  else
    let recvLen := min (result.ready stream) freeLen
    if recvLen = 0 then (.again, { conn with rbuf := rbuf }, stream)
    else
      (if recvLen < freeLen then .done else .ok,
        { conn with rbuf := rbuf.append (stream.take recvLen) }, stream.drop recvLen)

/-- Why a connection is removed, or that it is not: `left .waits`. -/
inductive ReadEnd where
  | full
  | lost
  | left (ending : LoopEnd)
  deriving DecidableEq, Repr

/-- A connection, the state that commands work on, and what is still to come. -/
structure Reader (σ : Type) where
  conn : FkConnIn
  state : σ
  stream : Bytes
  ending : ReadEnd

variable {σ : Type}

namespace Reader

/-- The inner loop of `fk_conn_read_cb`. -/
def serve (proc : Proc σ) (reader : Reader σ) : Reader σ :=
  let result := reqLoop proc reader.conn.rbuf.fkBufPayloadLen reader.conn reader.state
  { reader with conn := result.conn, state := result.state, ending := .left result.ending }

/-- What the outer loop makes of a return code, and whether another pass follows. -/
def handle (proc : Proc σ) (received : Received) (filled : Reader σ) : Bool × Reader σ :=
  match received with
  | .full => (false, { filled with ending := .full })
  | .lost => (false, { filled with ending := .lost })
  | .again => (false, filled)
  | .done => (false, filled.serve proc)
  | .ok => ((filled.serve proc).ending = .left .waits, filled.serve proc)

/-- One pass of the outer loop. -/
def pass (proc : Proc σ) (result : RecvRt) (reader : Reader σ) : Bool × Reader σ :=
  let data := fkConnRecvData result reader.conn reader.stream
  handle proc data.1 { reader with conn := data.2.1, stream := data.2.2 }

/-- The outer loop.  After the results that are given, the socket is empty. -/
def passes (proc : Proc σ) : List RecvRt → Reader σ → Reader σ
  | [], reader => (reader.pass proc .again).2
  | result :: rest, reader =>
      let (again, after) := reader.pass proc result
      if again then passes proc rest after else after

/-- `fk_conn_send_rsp` shrinks the read buffer. -/
def shrink (reader : Reader σ) : Reader σ :=
  { reader with conn := { reader.conn with rbuf := reader.conn.rbuf.fkBufShrink } }

end Reader

/-- `fk_conn_read_cb` on the results of `recv`. -/
def fkConnReadCb (proc : Proc σ) (results : List RecvRt) (reader : Reader σ) : Reader σ :=
  let after := reader.passes proc results
  if after.ending = .left .waits then after.shrink else after

namespace Reader

/-- One read callback after the other, until the connection is removed. -/
def readAll (proc : Proc σ) : List (List RecvRt) → Reader σ → Reader σ
  | [], reader => reader
  | results :: rest, reader =>
      let after := fkConnReadCb proc results reader
      if after.ending = .left .waits then readAll proc rest after else after

/-- A new connection. -/
def start (maxWbuf : Nat) (state : σ) (stream : Bytes) : Reader σ :=
  ⟨(fkConnCreate .real maxWbuf).toFkConnIn, state, stream, .left .waits⟩

end Reader

/-- The bytes of requests. -/
def encAll (requests : List (List Bytes)) : Bytes := requests.flatMap enc

/-! ## Commands do not matter -/

section Bare

variable {proc : Proc σ} {reader : Reader σ}

/-- The inner loop on a complete request. -/
theorem reqLoop_complete {fuel : Nat} {conn parsed : FkConnIn} {rt : FkRt}
    (proc : Proc σ) (state : σ) (nonempty : conn.rbuf.fkBufPayloadLen ≠ 0)
    (called : fkConnParseReq conn = some (rt, parsed))
    (notErr : rt ≠ .err) (notAgain : rt ≠ .again) :
    reqLoop proc (fuel + 1) conn state =
      match proc state parsed.argSlots with
      | none => ⟨parsed, state, [parsed.argSlots], .crashes⟩
      | some (.err, after) => ⟨fkConnFreeArgs parsed, after, [parsed.argSlots], .closes⟩
      | some (_, after) =>
          let later := reqLoop proc fuel (fkConnFreeArgs parsed) after
          { later with handed := parsed.argSlots :: later.handed } := by
  rw [reqLoop, if_neg nonempty, called]
  cases rt with
  | err => exact (notErr rfl).elim
  | again => exact (notAgain rfl).elim
  | ok => rfl
  | done => rfl

/-- The parser works alike whatever commands do, as long as they succeed. -/
theorem reqLoop_handOn {fuel : Nat} {conn : FkConnIn} {state : σ}
    (waits : (reqLoop proc fuel conn state).ending = .waits) :
    (reqLoop handOn fuel conn ()).conn = (reqLoop proc fuel conn state).conn ∧
      (reqLoop handOn fuel conn ()).ending = .waits := by
  induction fuel generalizing conn state with
  | zero => exact ⟨rfl, rfl⟩
  | succ fuel ih =>
      by_cases empty : conn.rbuf.fkBufPayloadLen = 0
      · rw [reqLoop, reqLoop, if_pos empty, if_pos empty]
        exact ⟨rfl, rfl⟩
      · cases called : fkConnParseReq conn with
        | none =>
            rw [reqLoop, if_neg empty, called] at waits
            cases waits
        | some pair =>
            obtain ⟨rt, parsed⟩ := pair
            by_cases failed : rt = .err
            · rw [reqLoop, if_neg empty, called, failed] at waits
              cases waits
            · by_cases incomplete : rt = .again
              · rw [reqLoop, reqLoop, if_neg empty, if_neg empty, called, incomplete]
                exact ⟨rfl, rfl⟩
              · rw [reqLoop_complete proc state empty called failed incomplete] at waits ⊢
                rw [reqLoop_complete handOn () empty called failed incomplete]
                split at waits
                · cases waits
                · cases waits
                · exact ih waits

namespace Reader

/-- The reader without what commands work on. -/
def bare (reader : Reader σ) : Reader Unit := ⟨reader.conn, (), reader.stream, reader.ending⟩

/-- No command and no request has ended the connection. -/
def Stays (reader : Reader σ) : Prop := ∀ ending, reader.ending = .left ending → ending = .waits

theorem stays_of_open (opened : reader.ending = .left .waits) : reader.Stays := by
  intro ending ended
  rw [opened] at ended
  cases ended
  rfl

theorem serve_bare (stays : (reader.serve proc).Stays) :
    reader.bare.serve handOn = (reader.serve proc).bare := by
  have waits := stays _ rfl
  obtain ⟨conn, ends⟩ := reqLoop_handOn waits
  unfold serve bare
  dsimp only
  rw [conn, ends, waits]

theorem handle_bare {received : Received} (stays : (handle proc received reader).2.Stays) :
    handle handOn received reader.bare =
      ((handle proc received reader).1, (handle proc received reader).2.bare) := by
  cases received with
  | full => rfl
  | lost => rfl
  | again => rfl
  | done => exact congrArg (Prod.mk false) (serve_bare stays)
  | ok =>
      have served := serve_bare stays
      unfold handle
      dsimp only
      rw [served]
      rfl

theorem pass_bare {result : RecvRt} (stays : (reader.pass proc result).2.Stays) :
    reader.bare.pass handOn result =
      ((reader.pass proc result).1, (reader.pass proc result).2.bare) :=
  handle_bare stays

/-- Another pass follows only while the connection is open. -/
theorem pass_again {result : RecvRt} (again : (reader.pass proc result).1 = true) :
    (reader.pass proc result).2.ending = .left .waits := by
  unfold pass handle at again ⊢
  dsimp only at again ⊢
  split at again
  · cases again
  · cases again
  · cases again
  · cases again
  · exact of_decide_eq_true again

theorem passes_bare {results : List RecvRt} (stays : (reader.passes proc results).Stays) :
    reader.bare.passes handOn results = (reader.passes proc results).bare := by
  induction results generalizing reader with
  | nil => exact congrArg Prod.snd (pass_bare stays)
  | cons result rest ih =>
      rw [passes] at stays ⊢
      rw [passes]
      cases again : (reader.pass proc result).1 with
      | true =>
          have first := pass_bare (stays_of_open (pass_again again))
          dsimp only at stays ⊢
          rw [again, if_pos rfl] at stays
          rw [first, again, if_pos rfl, if_pos rfl]
          exact ih stays
      | false =>
          dsimp only at stays ⊢
          rw [again, if_neg Bool.false_ne_true] at stays
          rw [pass_bare stays, again, if_neg Bool.false_ne_true, if_neg Bool.false_ne_true]

theorem fkConnReadCb_bare {results : List RecvRt}
    (stays : (fkConnReadCb proc results reader).Stays) :
    fkConnReadCb handOn results reader.bare = (fkConnReadCb proc results reader).bare := by
  unfold fkConnReadCb at stays ⊢
  dsimp only at stays ⊢
  by_cases opened : (reader.passes proc results).ending = .left .waits
  · rw [passes_bare (stays_of_open opened), if_pos opened]
    exact if_pos opened
  · rw [if_neg opened] at stays
    rw [passes_bare stays, if_neg opened]
    exact if_neg opened

theorem readAll_bare {callbacks : List (List RecvRt)}
    (stays : (reader.readAll proc callbacks).Stays) :
    reader.bare.readAll handOn callbacks = (reader.readAll proc callbacks).bare := by
  induction callbacks generalizing reader with
  | nil => rfl
  | cons results rest ih =>
      rw [readAll] at stays ⊢
      rw [readAll]
      by_cases opened : (fkConnReadCb proc results reader).ending = .left .waits
      · rw [if_pos opened] at stays
        rw [fkConnReadCb_bare (stays_of_open opened), if_pos opened]
        exact (if_pos opened).trans (ih stays)
      · rw [if_neg opened] at stays
        rw [fkConnReadCb_bare stays, if_neg opened]
        exact if_neg opened

/-- A buffer that is full under some commands is full when all commands succeed. -/
theorem readAll_full {callbacks : List (List RecvRt)}
    (full : (reader.readAll proc callbacks).ending = .full) :
    (reader.bare.readAll handOn callbacks).ending = .full := by
  have stays : (reader.readAll proc callbacks).Stays := by
    intro ending ended
    rw [full] at ended
    cases ended
  rw [readAll_bare stays]
  exact full

end Reader

end Bare

end Freekick
