import Freekick.Net.Grammar

/-!
# The window of a read buffer

Both loops that read requests make room before they read: they move the payload down when
it takes most of the buffer and stretch a buffer that is full.  The parser moves the
front of the payload only, so its end and the length of the buffer change in few places.
-/

namespace Freekick

variable {σ : Type}

/-! ## Room for the next read -/

/-- The payload is moved down when it takes most of the buffer. -/
def FkBuf.moved (buf : FkBuf) : FkBuf :=
  if 3 * (buf.len >>> 2) < buf.fkBufPayloadLen then buf.fkBufShift else buf

/-- The read buffer before `read`: moved down, and stretched when it is full. -/
def FkBuf.ready (buf : FkBuf) : FkBuf :=
  if buf.moved.fkBufFreeLen = 0 then buf.moved.fkBufStretch else buf.moved

/-! ## What the parser leaves alone -/

/-- The fields of a buffer that the parser does not move. -/
def FkBuf.frame (buf : FkBuf) : Nat × Nat × Nat × Nat :=
  (buf.highwat, buf.initLen, buf.len, buf.high)

/-- A part of the parser that reads no count line. -/
structure ParseFrame (conn after : FkConnIn) : Prop where
  frame : after.rbuf.frame = conn.rbuf.frame
  parsed : after.argParsed = conn.argParsed
  slots : after.argVtr.fkVtrLen = conn.argVtr.fkVtrLen

theorem ParseFrame.trans {conn middle after : FkConnIn} (first : ParseFrame conn middle)
    (second : ParseFrame middle after) : ParseFrame conn after :=
  ⟨second.frame.trans first.frame, second.parsed.trans first.parsed, second.slots.trans first.slots⟩

theorem parseLen_frame (conn : FkConnIn) : ParseFrame conn (parseLen conn).2 := by
  unfold parseLen
  split
  · split
    · exact ⟨rfl, rfl, rfl⟩
    · exact ⟨rfl, rfl, rfl⟩
    · exact ⟨rfl, rfl, rfl⟩
  · exact ⟨rfl, rfl, rfl⟩

theorem parseLen_rt {conn : FkConnIn} {rt : FkRt} {known : FkConnIn}
    (called : parseLen conn = (some rt, known)) : rt = .again ∨ rt = .err := by
  unfold parseLen at called
  split at called
  · split at called
    · cases called
      exact .inl rfl
    · cases called
      exact .inr rfl
    · cases called
  · cases called

/-- A request that is finished has a slot for its last argument. -/
theorem parseArg_frame {conn stored : FkConnIn} {code : Option FkRt}
    (called : parseArg conn = some (code, stored)) :
    ParseFrame conn stored ∧ ∀ rt, code = some rt →
      rt = .again ∨ rt = .err ∨ conn.argParsed ≤ conn.argVtr.fkVtrLen := by
  unfold parseArg at called
  dsimp only at called
  split at called
  · split at called
    · cases called
      refine ⟨⟨rfl, rfl, rfl⟩, ?_⟩
      rintro rt ⟨⟩
      exact .inr (.inl rfl)
    · obtain ⟨vtr, written, rest⟩ := Option.map_eq_some_iff.mp called
      unfold FkVtr.fkVtrSet at written
      split at written
      · next inside =>
          cases written
          have slots : (FkVtr.mk conn.argVtr.initLen (conn.argVtr.array.set conn.argCnt
              (some (conn.rbuf.payload.take conn.curArglen.toNat)))).fkVtrLen =
              conn.argVtr.fkVtrLen :=
            List.length_set
          split at rest
          · next last =>
              cases rest
              refine ⟨⟨rfl, rfl, slots⟩, fun _ _ => .inr (.inr ?_)⟩
              have counted : conn.argParsed = conn.argCnt + 1 := last
              omega
          · cases rest
            refine ⟨⟨rfl, rfl, slots⟩, ?_⟩
            rintro rt ⟨⟩
      · cases written
  · cases called
    refine ⟨⟨rfl, rfl, rfl⟩, ?_⟩
    rintro rt ⟨⟩
    exact .inl rfl

theorem parseArgs_frame {fuel : Nat} {conn after : FkConnIn} {rt : FkRt}
    (called : parseArgs fuel conn = some (rt, after)) :
    ParseFrame conn after ∧ (rt = .again ∨ rt = .err ∨ conn.argParsed ≤ conn.argVtr.fkVtrLen) := by
  induction fuel generalizing conn with
  | zero =>
      cases called
      exact ⟨⟨rfl, rfl, rfl⟩, .inl rfl⟩
  | succ fuel ih =>
      have lens := parseLen_frame conn
      rw [parseArgs] at called
      split at called
      · cases called
        exact ⟨⟨rfl, rfl, rfl⟩, .inl rfl⟩
      · split at called
        · next code known read =>
            cases called
            rw [read] at lens
            refine ⟨lens, ?_⟩
            rcases parseLen_rt read with waits | fails
            · exact .inl waits
            · exact .inr (.inl fails)
        · next known read =>
            rw [read] at lens
            split at called
            · cases called
            · next code stored written =>
                cases called
                obtain ⟨kept, room⟩ := parseArg_frame written
                have bound := room rt rfl
                rw [lens.parsed, lens.slots] at bound
                exact ⟨lens.trans kept, bound⟩
            · next stored written =>
                have both := lens.trans (parseArg_frame written).1
                obtain ⟨later, room⟩ := ih called
                rw [both.parsed, both.slots] at room
                exact ⟨both.trans later, room⟩

theorem fkConnParseReq_frame {conn after : FkConnIn} {rt : FkRt}
    (called : fkConnParseReq conn = some (rt, after)) : after.rbuf.frame = conn.rbuf.frame := by
  unfold fkConnParseReq at called
  split at called
  · split at called
    · cases called
      rfl
    · cases called
      rfl
    · exact (parseArgs_frame called).1.frame
  · exact (parseArgs_frame called).1.frame

theorem reqLoop_frame (proc : Proc σ) (fuel : Nat) (conn : FkConnIn) (state : σ) :
    (reqLoop proc fuel conn state).conn.rbuf.frame = conn.rbuf.frame := by
  induction fuel generalizing conn state with
  | zero => rfl
  | succ fuel ih =>
      rw [reqLoop]
      split
      · rfl
      · split
        · rfl
        · next parsed called => exact fkConnParseReq_frame called
        · next parsed called => exact fkConnParseReq_frame called
        · next parsed called =>
            have kept := fkConnParseReq_frame called
            split
            · exact kept
            · exact kept
            · exact (ih _ _).trans kept

/-! ## Windows -/

/-- The length of the read buffer and the end of its payload. -/
structure Window where
  len : Nat
  high : Nat

namespace Window

/-- The window of a new buffer. -/
def fresh : Window := ⟨fkBufInitLen, 0⟩

def free (window : Window) : Nat := window.len - window.high

/-- The payload of `left` bytes is moved down when it takes most of the buffer. -/
def moved (window : Window) (left : Nat) : Window :=
  if 3 * (window.len >>> 2) < left then ⟨window.len, left⟩ else window

def stretched (window : Window) : Window :=
  ⟨if window.len < fkBufHighwat then window.len <<< 1 else window.len, window.high⟩

/-- The window before a read, with `left` bytes of payload. -/
def ready (window : Window) (left : Nat) : Window :=
  if (window.moved left).free = 0 then (window.moved left).stretched else window.moved left

/-- The window after `fk_buf_shrink`, with `left` bytes of payload. -/
def shrink (window : Window) (left : Nat) : Window :=
  if fkBufInitLen ≤ window.len ∧ left < fkBufInitLen then ⟨fkBufInitLen, left⟩ else window

/-- What `fk_buf_shrink` leaves. -/
structure Tidy (window : Window) (left : Nat) : Prop where
  least : fkBufInitLen ≤ window.len
  short : left < fkBufInitLen → window = ⟨fkBufInitLen, left⟩

theorem ready_least {window : Window} (least : fkBufInitLen ≤ window.len) (left : Nat) :
    fkBufInitLen ≤ (window.ready left).len := by
  have moved : (window.moved left).len = window.len := by
    unfold moved
    split <;> rfl
  unfold ready
  split
  · unfold stretched
    dsimp only
    rw [moved, Nat.shiftLeft_eq]
    split <;> omega
  · rwa [moved]

theorem shrink_tidy {window : Window} (least : fkBufInitLen ≤ window.len) (left : Nat) :
    (window.shrink left).Tidy left := by
  unfold shrink
  split
  · exact ⟨Nat.le_refl _, fun _ => rfl⟩
  · next long => exact ⟨least, fun short => (long ⟨least, short⟩).elim⟩

/-- Without payload there is room. -/
theorem Tidy.free_ne_zero {window : Window} (tidy : window.Tidy 0) : (window.ready 0).free ≠ 0 := by
  rw [tidy.short (by decide)]
  decide

end Window

/-- A read buffer with that window. -/
structure FkBuf.Framed (buf : FkBuf) (window : Window) : Prop where
  highwat : buf.highwat = fkBufHighwat
  initLen : buf.initLen = fkBufInitLen
  len : buf.len = window.len
  high : buf.high = window.high

namespace FkBuf.Framed

variable {buf : FkBuf} {window : Window}

theorem of_frame {after : FkBuf} (framed : buf.Framed window) (same : after.frame = buf.frame) :
    after.Framed window := by
  simp only [frame, Prod.mk.injEq] at same
  obtain ⟨highwat, initLen, len, high⟩ := same
  exact ⟨highwat.trans framed.highwat, initLen.trans framed.initLen, len.trans framed.len,
    high.trans framed.high⟩

theorem free (framed : buf.Framed window) : buf.fkBufFreeLen = window.free := by
  rw [fkBufFreeLen, framed.len, framed.high]
  rfl

theorem fkBufShift (framed : buf.Framed window) :
    buf.fkBufShift.Framed ⟨window.len, buf.fkBufPayloadLen⟩ := by
  refine ⟨?_, ?_, ?_, fkBufShift_high buf⟩
  · rw [fkBufShift_highwat]
    exact framed.highwat
  · rw [fkBufShift_initLen]
    exact framed.initLen
  · rw [fkBufShift_len]
    exact framed.len

theorem fkBufStretch (framed : buf.Framed window) : buf.fkBufStretch.Framed window.stretched := by
  unfold FkBuf.fkBufStretch Window.stretched
  rw [← framed.highwat, ← framed.len]
  split
  · exact ⟨framed.highwat, framed.initLen, rfl, framed.high⟩
  · exact ⟨framed.highwat, framed.initLen, rfl, framed.high⟩

theorem moved (framed : buf.Framed window) :
    buf.moved.Framed (window.moved buf.fkBufPayloadLen) := by
  unfold FkBuf.moved Window.moved
  rw [framed.len]
  split
  · exact framed.fkBufShift
  · exact framed

theorem ready (framed : buf.Framed window) :
    buf.ready.Framed (window.ready buf.fkBufPayloadLen) := by
  unfold FkBuf.ready Window.ready
  rw [framed.moved.free]
  split
  · exact framed.moved.fkBufStretch
  · exact framed.moved

theorem append (framed : buf.Framed window) {bytes : Bytes} (room : bytes.length ≤ window.free) :
    (buf.append bytes).Framed ⟨window.len, window.high + bytes.length⟩ := by
  have high := append_high (framed.free ▸ room)
  exact ⟨framed.highwat, framed.initLen, framed.len, high.trans (by rw [framed.high])⟩

theorem fkBufShrink (framed : buf.Framed window) :
    buf.fkBufShrink.Framed (window.shrink buf.fkBufPayloadLen) := by
  unfold FkBuf.fkBufShrink Window.shrink
  rw [← framed.initLen, ← framed.len]
  split
  · exact ⟨framed.fkBufShift.highwat, framed.fkBufShift.initLen, rfl, framed.fkBufShift.high⟩
  · exact framed

end FkBuf.Framed

theorem FkBuf.payload_moved (buf : FkBuf) : buf.moved.payload = buf.payload := by
  unfold FkBuf.moved
  split
  · exact payload_fkBufShift buf
  · rfl

theorem FkBuf.payload_ready (buf : FkBuf) : buf.ready.payload = buf.payload := by
  unfold FkBuf.ready
  split
  · rw [payload_fkBufStretch, payload_moved]
  · exact payload_moved buf

theorem FkBuf.ready_highwat (buf : FkBuf) : buf.ready.highwat = buf.highwat := by
  have moved : buf.moved.highwat = buf.highwat := by
    unfold FkBuf.moved
    split
    · exact fkBufShift_highwat buf
    · rfl
  unfold FkBuf.ready
  split
  · unfold FkBuf.fkBufStretch
    split <;> exact moved
  · exact moved

end Freekick
