import Freekick.Event.Evmgr
import Freekick.Lib.Steps
import Freekick.Store.Space

/-!
# Replies on their way to the socket: `fk_conn_send_rsp` and `fk_conn_write_cb`

Read callbacks queue replies and register the write event; write callbacks send what is
queued and take the event back.  Nothing is lost or repeated in between, and the event
is registered exactly as long as something is queued.
-/

namespace Freekick

open Lib.Call Lib.Steps

/-! ## Write events: `fk_ev.c` -/

/-- A write event, and whether `evmgr.write_ev` holds it. -/
structure FkIoev where
  stat : FkIoevStat
  held : Bool
  deriving DecidableEq, Repr

def fkIoevCreate : FkIoev := ⟨.init, false⟩

/-- The call of the multiplexer is taken to succeed, here and below. -/
def fkEvAddIoev (ioev : FkIoev) : FkEvRt × FkIoev :=
  if ioev.stat ≠ .init then (.err, ioev) else (.ok, ⟨.pending, true⟩)

def fkEvRemoveIoev (ioev : FkIoev) : FkEvRt × FkIoev :=
  if ioev.stat = .init then (.err, ioev) else (.ok, ⟨.init, false⟩)

def fkEvActivateIoev (ioev : FkIoev) : FkIoev :=
  if ioev.held = true ∧ ioev.stat = .pending then { ioev with stat := .activated } else ioev

/-! ## The two callbacks -/

/-- The buffers of a connection and its write event. -/
structure FkLink where
  rbuf : FkBuf
  wbuf : FkBuf
  writeEv : FkIoev
  writeAdded : Bool

/-- It always returns `FK_SVR_OK`. -/
def fkConnSendRsp (link : FkLink) : FkLink :=
  let link := { link with rbuf := link.rbuf.fkBufShrink }
  if 0 < link.wbuf.fkBufPayloadLen ∧ link.writeAdded = false then
    { link with writeEv := (fkEvAddIoev link.writeEv).2, writeAdded := true }
  else link

/-- What `send` meets: a socket that takes up to `room + 1` bytes, `EAGAIN`, or another
error. -/
inductive SendRt where
  | takes (room : Nat)
  | again
  | error
  deriving DecidableEq, Repr

structure WriteEnd where
  wbuf : FkBuf
  sent : Bytes
  failed : Bool

/-- The loop of `fk_conn_write_cb`.  After the results that are given, the socket is full. -/
def writeLoop : List SendRt → FkBuf → WriteEnd
  | [], wbuf => ⟨wbuf, [], false⟩
  | result :: rest, wbuf =>
      if wbuf.fkBufPayloadLen = 0 then ⟨wbuf, [], false⟩
      else
        match result with
        | .takes room =>
            let count := min (room + 1) wbuf.fkBufPayloadLen
            let later := writeLoop rest (wbuf.fkBufLowInc count)
            { later with sent := wbuf.payload.take count ++ later.sent }
        | .again => ⟨wbuf, [], false⟩
        | .error => ⟨wbuf, [], true⟩

/-- The bytes that were sent, and the connection unless it was closed. -/
def fkConnWriteCb (results : List SendRt) (link : FkLink) : Bytes × Option FkLink :=
  let out := writeLoop results link.wbuf
  if out.failed then (out.sent, none)
  else
    let link := { link with wbuf := out.wbuf.fkBufShrink }
    if link.wbuf.fkBufPayloadLen = 0 then
      (out.sent, some { link with writeEv := (fkEvRemoveIoev link.writeEv).2, writeAdded := false })
    else (out.sent, some link)

/-! ## A connection in time -/

/-- What happens to a connection: a read callback that leaves `rbuf` and queues replies by
these calls, one that closes the connection, the report that the socket takes bytes, and
a write callback. -/
inductive LinkEvent where
  | read (rbuf : FkBuf) (calls : List Rsp)
  | hangup
  | ready
  | write (results : List SendRt)

/-- The connection while it is open, the bytes that `send` took, and all bytes of replies. -/
structure Delivery where
  link : Option FkLink
  sent : Bytes
  queued : Bytes

/-- The event manager takes an event off its list before it calls back.  `none` is a write
buffer whose new length is not an `int`. -/
def Delivery.step (junk : Nat → UInt8) (delivery : Delivery) (event : LinkEvent) :
    Option Delivery :=
  match delivery.link with
  | none => some delivery
  | some link =>
      match event with
      | .read rbuf calls =>
          match queueAll junk calls link.wbuf with
          | .ok _ wbuf => some { delivery with
              link := some (fkConnSendRsp { link with rbuf := rbuf, wbuf := wbuf })
              queued := delivery.queued ++ calls.flatMap fun rsp => printed junk rsp.text rsp.len }
          | .err _ => some { delivery with link := none }
          | .fault => none
      | .hangup => some { delivery with link := none }
      | .ready =>
          some { delivery with link := some { link with writeEv := fkEvActivateIoev link.writeEv } }
      | .write results =>
          if link.writeEv.stat = .activated then
            let out := fkConnWriteCb results
              { link with writeEv := { link.writeEv with stat := .pending } }
            some { delivery with link := out.2, sent := delivery.sent ++ out.1 }
          else some delivery

/-- A new connection. -/
def Delivery.start (maxWbuf : Nat) : Delivery where
  link := some ⟨(fkConnCreate .real maxWbuf).rbuf, (fkConnCreate .real maxWbuf).wbuf,
    fkIoevCreate, false⟩
  sent := []
  queued := []

/-! ## Nothing is lost and nothing is stranded -/

/-- The bytes that were sent and the bytes in `wbuf` are all bytes of replies, and the write
event is registered exactly while `wbuf` holds some. -/
structure Delivery.Delivers (delivery : Delivery) (link : FkLink) : Prop where
  bytes : delivery.sent ++ link.wbuf.payload = delivery.queued
  added : link.wbuf.payload ≠ [] ↔ link.writeAdded = true
  registered : link.wbuf.payload ≠ [] ↔ link.writeEv.stat ≠ .init
  held : link.wbuf.payload ≠ [] ↔ link.writeEv.held = true

/-- The replies of a read callback are shorter than `2 ^ 29` bytes. -/
def LinkEvent.Short : LinkEvent → Prop
  | .read _ calls => ∀ rsp ∈ calls, rsp.len < 2 ^ 29
  | _ => True

instance : ∀ event : LinkEvent, Decidable event.Short
  | .read _ calls => inferInstanceAs (Decidable (∀ rsp ∈ calls, rsp.len < 2 ^ 29))
  | .hangup => isTrue trivial
  | .ready => isTrue trivial
  | .write _ => isTrue trivial

/-- What holds between two events. -/
def Delivery.Sound (maxWbuf : Nat) (delivery : Delivery) : Prop :=
  ∀ link, delivery.link = some link → link.wbuf.highwat = maxWbuf ∧ delivery.Delivers link

section Deliver

variable {junk : Nat → UInt8} {maxWbuf : Nat} {delivery : Delivery} {link : FkLink}

theorem writeLoop_cons (result : SendRt) (rest : List SendRt) (wbuf : FkBuf) :
    writeLoop (result :: rest) wbuf =
      if wbuf.fkBufPayloadLen = 0 then ⟨wbuf, [], false⟩
      else
        match result with
        | .takes room =>
            let count := min (room + 1) wbuf.fkBufPayloadLen
            let later := writeLoop rest (wbuf.fkBufLowInc count)
            { later with sent := wbuf.payload.take count ++ later.sent }
        | .again => ⟨wbuf, [], false⟩
        | .error => ⟨wbuf, [], true⟩ := rfl

/-- What one more result of `send` makes of the loop: it is over when `wbuf` is empty. -/
theorem writeLoop_cases (result : SendRt) (rest : List SendRt) (wbuf : FkBuf) :
    (writeLoop (result :: rest) wbuf).wbuf = wbuf ∧ (writeLoop (result :: rest) wbuf).sent = [] ∨
      ∃ count, writeLoop (result :: rest) wbuf =
        { writeLoop rest (wbuf.fkBufLowInc count) with
          sent := wbuf.payload.take count ++ (writeLoop rest (wbuf.fkBufLowInc count)).sent } := by
  rw [writeLoop_cons]
  split
  · exact .inl ⟨rfl, rfl⟩
  · cases result with
    | takes room => exact .inr ⟨min (room + 1) wbuf.fkBufPayloadLen, rfl⟩
    | again => exact .inl ⟨rfl, rfl⟩
    | error => exact .inl ⟨rfl, rfl⟩

theorem writeLoop_bytes (results : List SendRt) (wbuf : FkBuf) :
    (writeLoop results wbuf).sent ++ (writeLoop results wbuf).wbuf.payload = wbuf.payload := by
  induction results generalizing wbuf with
  | nil => rfl
  | cons result rest ih =>
      rcases writeLoop_cases result rest wbuf with ⟨kept, nothing⟩ | ⟨count, later⟩
      · rw [kept, nothing, List.nil_append]
      · rw [later, List.append_assoc, ih, FkBuf.payload_fkBufLowInc, List.take_append_drop]

theorem writeLoop_highwat (results : List SendRt) (wbuf : FkBuf) :
    (writeLoop results wbuf).wbuf.highwat = wbuf.highwat := by
  induction results generalizing wbuf with
  | nil => rfl
  | cons result rest ih =>
      rcases writeLoop_cases result rest wbuf with ⟨kept, _⟩ | ⟨count, later⟩
      · rw [kept]
      · rw [later]
        exact ih (wbuf.fkBufLowInc count)

/-! ## One event -/

/-- A read callback: replies behind what is queued, and the event for an empty buffer. -/
theorem delivers_sendRsp {rbuf wbuf : FkBuf} {replies : Bytes} (delivers : delivery.Delivers link)
    (queued : wbuf.payload = link.wbuf.payload ++ replies) :
    Delivery.Delivers ⟨some (fkConnSendRsp { link with rbuf := rbuf, wbuf := wbuf }), delivery.sent,
      delivery.queued ++ replies⟩ (fkConnSendRsp { link with rbuf := rbuf, wbuf := wbuf }) := by
  have bytes : delivery.sent ++ wbuf.payload = delivery.queued ++ replies := by
    rw [queued, ← List.append_assoc, delivers.bytes]
  have nonempty : 0 < wbuf.fkBufPayloadLen ↔ wbuf.payload ≠ [] := by
    rw [Ne, FkBuf.payload_eq_nil_iff, Nat.pos_iff_ne_zero]
  unfold fkConnSendRsp
  dsimp only
  split
  · next fresh =>
      have some := nonempty.mp fresh.1
      -- The flag is off, so nothing was queued and the event was not registered.
      have empty : link.wbuf.payload = [] := by
        refine Decidable.of_not_not fun full => ?_
        rw [delivers.added.mp full] at fresh
        cases fresh.2
      have idle : link.writeEv.stat = .init :=
        Decidable.of_not_not fun busy => delivers.registered.mpr busy empty
      have registered : (fkEvAddIoev link.writeEv).2 = ⟨.pending, true⟩ := by
        unfold fkEvAddIoev
        rw [if_neg (fun busy => busy idle)]
      refine ⟨bytes, iff_of_true some rfl, iff_of_true some ?_, iff_of_true some ?_⟩
      · rw [registered]
        nofun
      · rw [registered]
  · next settled =>
      -- Either nothing is queued still, or the event is registered already.
      have same : wbuf.payload ≠ [] ↔ link.wbuf.payload ≠ [] := by
        constructor
        · intro full empty
          refine settled ⟨nonempty.mpr full, ?_⟩
          exact Bool.eq_false_iff.mpr fun added => delivers.added.mpr added empty
        · intro full empty
          rw [queued] at empty
          exact full (List.append_eq_nil_iff.mp empty).1
      exact ⟨bytes, same.trans delivers.added, same.trans delivers.registered,
        same.trans delivers.held⟩

/-- The report that the socket takes bytes changes neither buffer nor registration. -/
theorem delivers_ready (delivers : delivery.Delivers link) :
    Delivery.Delivers { delivery with
      link := some { link with writeEv := fkEvActivateIoev link.writeEv } }
      { link with writeEv := fkEvActivateIoev link.writeEv } := by
  refine ⟨delivers.bytes, delivers.added, ?_, ?_⟩
  · refine delivers.registered.trans ?_
    change _ ↔ (fkEvActivateIoev link.writeEv).stat ≠ .init
    unfold fkEvActivateIoev
    split
    · next waiting =>
        rw [waiting.2]
        exact iff_of_true nofun nofun
    · rfl
  · refine delivers.held.trans ?_
    change _ ↔ (fkEvActivateIoev link.writeEv).held = true
    unfold fkEvActivateIoev
    split <;> rfl

/-- A write callback that leaves the connection open: what it sent came off the front of
`wbuf`, and the event goes with the last byte. -/
theorem delivers_writeCb {results : List SendRt} {after : FkLink} {sent : Bytes}
    (delivers : delivery.Delivers link) (active : link.writeEv.stat = .activated)
    (wrote : fkConnWriteCb results { link with writeEv := { link.writeEv with stat := .pending } } =
      (sent, some after)) :
    Delivery.Delivers ⟨some after, delivery.sent ++ sent, delivery.queued⟩ after ∧
      after.wbuf.highwat = link.wbuf.highwat := by
  have full : link.wbuf.payload ≠ [] := delivers.registered.mpr (by rw [active]; nofun)
  have added := delivers.added.mp full
  have held := delivers.held.mp full
  have shrunk := (writeLoop results link.wbuf).wbuf.payload_fkBufShrink
  have left : delivery.sent ++ ((writeLoop results link.wbuf).sent ++
      (writeLoop results link.wbuf).wbuf.fkBufShrink.payload) = delivery.queued := by
    rw [shrunk, writeLoop_bytes, delivers.bytes]
  have highwat : (writeLoop results link.wbuf).wbuf.fkBufShrink.highwat = link.wbuf.highwat := by
    rw [FkBuf.fkBufShrink_highwat, writeLoop_highwat]
  rw [← List.append_assoc] at left
  unfold fkConnWriteCb at wrote
  dsimp only at wrote
  split at wrote
  · cases wrote
  · split at wrote
    · next drained =>
        cases wrote
        have empty := (FkBuf.payload_eq_nil_iff _).mpr drained
        refine ⟨⟨left, ?_, ?_, ?_⟩, highwat⟩
        · exact iff_of_false (fun some => some empty) nofun
        · exact iff_of_false (fun some => some empty) (fun busy => busy rfl)
        · exact iff_of_false (fun some => some empty) nofun
    · next remaining =>
        cases wrote
        have some : (writeLoop results link.wbuf).wbuf.fkBufShrink.payload ≠ [] := fun empty =>
          remaining ((FkBuf.payload_eq_nil_iff _).mp empty)
        exact ⟨⟨left, iff_of_true some added, iff_of_true some nofun, iff_of_true some held⟩,
          highwat⟩

theorem sound_closed (sent queued : Bytes) : Delivery.Sound maxWbuf ⟨none, sent, queued⟩ := nofun

theorem sound_open {sent queued : Bytes} (highwat : link.wbuf.highwat = maxWbuf)
    (delivers : Delivery.Delivers ⟨some link, sent, queued⟩ link) :
    Delivery.Sound maxWbuf ⟨some link, sent, queued⟩ := by
  intro same opened
  cases opened
  exact ⟨highwat, delivers⟩

theorem fkConnSendRsp_wbuf (link : FkLink) : (fkConnSendRsp link).wbuf = link.wbuf := by
  unfold fkConnSendRsp
  dsimp only
  split <;> rfl

/-- No event is undefined, and each keeps what holds of the connection. -/
theorem step_sound (small : maxWbuf < 2 ^ 29) {event : LinkEvent} (sound : delivery.Sound maxWbuf)
    (short : event.Short) : ∃ next, delivery.step junk event = some next ∧ next.Sound maxWbuf := by
  unfold Delivery.step
  cases opened : delivery.link with
  | none => exact ⟨delivery, rfl, sound⟩
  | some link =>
      obtain ⟨highwat, delivers⟩ := sound link opened
      cases event with
      | read rbuf calls =>
          have fits : ¬ link.wbuf.load.Overflows link.wbuf.highwat (calls.map Rsp.len) := by
            refine Space.not_overflows (highwat ▸ small) ?_ ?_
            · intro len member
              obtain ⟨rsp, called, same⟩ := List.mem_map.mp member
              exact same ▸ short rsp called
            · exact Nat.le_trans (Nat.sub_le _ _) link.wbuf.high_le
          dsimp only
          cases called : queueAll junk calls link.wbuf with
          | ok value wbuf =>
              obtain ⟨space, queued⟩ := queued_of_ok called
              refine ⟨_, rfl, sound_open ?_ (delivers_sendRsp delivers queued.payload)⟩
              rw [fkConnSendRsp_wbuf]
              exact queued.highwat.trans highwat
          | err wbuf => exact ⟨_, rfl, sound_closed _ _⟩
          | fault => exact absurd (queueAll_eq_fault.mp called) fits
      | hangup => exact ⟨_, rfl, sound_closed _ _⟩
      | ready => exact ⟨_, rfl, sound_open highwat (delivers_ready delivers)⟩
      | write results =>
          dsimp only
          split
          · next active =>
              refine ⟨_, rfl, ?_⟩
              cases wrote : fkConnWriteCb results
                { link with writeEv := { link.writeEv with stat := .pending } } with
              | mk sent left =>
                  cases left with
                  | none => exact sound_closed _ _
                  | some after =>
                      obtain ⟨later, kept⟩ := delivers_writeCb delivers active wrote
                      exact sound_open (kept.trans highwat) later
          · exact ⟨delivery, rfl, sound⟩

theorem sound_start (maxWbuf : Nat) : (Delivery.start maxWbuf).Sound maxWbuf := by
  refine sound_open rfl ⟨rfl, ?_, ?_, ?_⟩
  · exact iff_of_false (fun some => some rfl) nofun
  · exact iff_of_false (fun some => some rfl) (fun busy => busy rfl)
  · exact iff_of_false (fun some => some rfl) nofun

/-- In any interleaving of read and write callbacks, whatever `send` takes: the bytes that
were sent and those that wait are all bytes of replies in order, and the write event is
registered exactly while bytes wait. -/
theorem fkLink_delivers (small : maxWbuf < 2 ^ 29) (events : List LinkEvent)
    (short : ∀ event ∈ events, event.Short) :
    ∃ delivery, run (Delivery.step junk) (.start maxWbuf) events = some delivery ∧
      ∀ link, delivery.link = some link → delivery.Delivers link := by
  have steps (delivery : Delivery) (event : LinkEvent) (sound : delivery.Sound maxWbuf)
      (short : event.Short) :
      ∃ next, delivery.step junk event = some next ∧ next.Sound maxWbuf :=
        step_sound small sound short
  obtain ⟨delivery, ran, sound⟩ := run_succeeds steps (sound_start maxWbuf) short
  exact ⟨delivery, ran, fun link opened => (sound link opened).2⟩

/-- An empty content and a status, over a socket that takes three bytes, then one, then the
rest. -/
theorem fkLink_delivers_two :
    (∃ delivery, run (Delivery.step fun _ => 0) (.start 64)
        [.read (fkBufCreate 16 64) [.content []], .ready,
          .read (fkBufCreate 16 64) [.status fkRspOk], .write [.takes 2, .takes 0], .ready,
          .write [.takes 9]] = some delivery ∧
      ∀ link, delivery.link = some link → delivery.Delivers link) ∧
    (run (Delivery.step fun _ => 0) (.start 64)
        [.read (fkBufCreate 16 64) [.content []], .ready,
          .read (fkBufCreate 16 64) [.status fkRspOk], .write [.takes 2, .takes 0], .ready,
          .write [.takes 9]]).map Delivery.sent =
      some (crlf ++ ascii "+OK" ++ crlf) :=
  ⟨fkLink_delivers (by decide) _ (by decide), by decide⟩

end Deliver

end Freekick
