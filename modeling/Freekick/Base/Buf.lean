import Freekick.Base.Util

/-!
# Byte buffers: `fk_buf.h`

A buffer is a block of `len` bytes with the payload at `low .. high` and free
space behind it.  Memory is a function of the offset, so that bytes which were
never written have some value without any operation fixing it.  The order
`low ≤ high ≤ len` is part of the type.
-/

namespace Freekick

structure FkBuf where
  highwat : Nat
  initLen : Nat
  len : Nat
  low : Nat
  high : Nat
  buffer : Nat → UInt8
  low_le : low ≤ high
  high_le : high ≤ len

def fkBufCreate (initLen highwat : Nat) : FkBuf where
  highwat := highwat
  initLen := initLen
  len := initLen
  low := 0
  high := 0
  buffer := fun _ => 0
  low_le := Nat.le_refl 0
  high_le := Nat.zero_le initLen

namespace FkBuf

def fkBufFreeLen (buf : FkBuf) : Nat := buf.len - buf.high

def fkBufPayloadLen (buf : FkBuf) : Nat := buf.high - buf.low

/-- The unread bytes, from `fk_buf_payload_start` on. -/
def payload (buf : FkBuf) : Bytes :=
  (List.range buf.fkBufPayloadLen).map fun offset => buf.buffer (buf.low + offset)

def fkBufHighInc (buf : FkBuf) (offset : Nat) : FkBuf :=
  { buf with
    high := min (buf.high + offset) buf.len
    low_le := Nat.le_min.mpr ⟨Nat.le_add_right_of_le buf.low_le,
      Nat.le_trans buf.low_le buf.high_le⟩
    high_le := Nat.min_le_right _ _ }

def fkBufLowInc (buf : FkBuf) (offset : Nat) : FkBuf :=
  { buf with
    low := min (buf.low + offset) buf.high
    low_le := Nat.min_le_right _ _ }

def fkBufStretch (buf : FkBuf) : FkBuf :=
  if buf.len < buf.highwat then
    { buf with
      len := buf.len <<< 1
      high_le := by
        rw [Nat.shiftLeft_eq]
        exact Nat.le_trans buf.high_le (Nat.le_mul_of_pos_right _ (by decide)) }
  else buf

def fkBufShift (buf : FkBuf) : FkBuf :=
  if 0 < buf.low then
    { buf with
      buffer := fun index =>
        if index < buf.high - buf.low then buf.buffer (buf.low + index) else buf.buffer index
      high := buf.high - buf.low
      low := 0
      low_le := Nat.zero_le _
      high_le := Nat.le_trans (Nat.sub_le _ _) buf.high_le }
  else buf

theorem fkBufShift_low (buf : FkBuf) : buf.fkBufShift.low = 0 := by
  unfold fkBufShift
  split
  · rfl
  · next zero => exact Nat.eq_zero_of_not_pos zero

theorem fkBufShift_high (buf : FkBuf) : buf.fkBufShift.high = buf.fkBufPayloadLen := by
  unfold fkBufShift fkBufPayloadLen
  split
  · rfl
  · next zero => rw [Nat.eq_zero_of_not_pos zero, Nat.sub_zero]

@[simp]
theorem fkBufShift_len (buf : FkBuf) : buf.fkBufShift.len = buf.len := by
  unfold fkBufShift
  split <;> rfl

@[simp]
theorem fkBufShift_highwat (buf : FkBuf) : buf.fkBufShift.highwat = buf.highwat := by
  unfold fkBufShift
  split <;> rfl

@[simp]
theorem fkBufShift_initLen (buf : FkBuf) : buf.fkBufShift.initLen = buf.initLen := by
  unfold fkBufShift
  split <;> rfl

/-- Give memory back once the payload is shorter than the initial length. -/
def fkBufShrink (buf : FkBuf) : FkBuf :=
  if short : buf.initLen ≤ buf.len ∧ buf.fkBufPayloadLen < buf.initLen then
    { buf.fkBufShift with
      len := buf.initLen
      high_le := by rw [fkBufShift_high]; exact Nat.le_of_lt short.2 }
  else buf

@[simp]
theorem fkBufShrink_highwat (buf : FkBuf) : buf.fkBufShrink.highwat = buf.highwat := by
  unfold fkBufShrink
  split
  · exact fkBufShift_highwat buf
  · rfl

/-- Set the length a reallocation asks for; it must not fall below the payload. -/
def resize (buf : FkBuf) (len : Nat) (room : buf.high ≤ len) : FkBuf :=
  { buf with len := len, high_le := room }

/-- Make room for `length` more bytes: move the payload down, then grow beyond the
high water mark at most once.  `none` when the new length is not an `int`. -/
def fkBufAlloc (buf : FkBuf) (length : Nat) : Option FkBuf :=
  let moved := if buf.fkBufFreeLen < length then buf.fkBufShift else buf
  if moved.fkBufFreeLen < length ∧ moved.len < moved.highwat then
    (fkUtilMinPower (moved.len + length - moved.fkBufFreeLen)).bind fun len =>
      if room : moved.high ≤ len then some (moved.resize len room) else none
  else some moved

/-- `memcpy` to `fk_buf_free_start` followed by `fk_buf_high_inc`. -/
def append (buf : FkBuf) (bytes : Bytes) : FkBuf :=
  { buf with
    buffer := fun index =>
      if buf.high ≤ index ∧ index < buf.high + bytes.length then bytes.getD (index - buf.high) 0
      else buf.buffer index }.fkBufHighInc bytes.length

/-! ## The payload under each operation -/

@[simp]
theorem length_payload (buf : FkBuf) : buf.payload.length = buf.fkBufPayloadLen := by
  rw [payload, List.length_map, List.length_range]

theorem payload_eq_nil_iff (buf : FkBuf) : buf.payload = [] ↔ buf.fkBufPayloadLen = 0 := by
  rw [← List.length_eq_zero_iff, length_payload]

/-- Equal windows onto equal memory give equal payloads. -/
theorem payload_congr {first second : FkBuf}
    (sizes : first.fkBufPayloadLen = second.fkBufPayloadLen)
    (bytes : ∀ offset < first.fkBufPayloadLen,
      first.buffer (first.low + offset) = second.buffer (second.low + offset)) :
    first.payload = second.payload := by
  unfold payload
  rw [← sizes]
  apply List.map_congr_left
  intro offset member
  exact bytes offset (List.mem_range.mp member)

theorem payload_getElem? {buf : FkBuf} {offset : Nat} (inside : offset < buf.fkBufPayloadLen) :
    buf.payload[offset]? = some (buf.buffer (buf.low + offset)) := by
  rw [payload, List.getElem?_map, List.getElem?_range inside, Option.map_some]

@[simp]
theorem payload_fkBufShift (buf : FkBuf) : buf.fkBufShift.payload = buf.payload := by
  have sizes : buf.fkBufShift.fkBufPayloadLen = buf.fkBufPayloadLen := by
    rw [fkBufPayloadLen, fkBufShift_low, fkBufShift_high, Nat.sub_zero]
  apply payload_congr sizes
  intro offset inside
  rw [sizes] at inside
  unfold fkBufShift
  split
  · dsimp only
    rw [Nat.zero_add, if_pos (show offset < buf.high - buf.low from inside)]
  · rfl

theorem payload_fkBufStretch (buf : FkBuf) : buf.fkBufStretch.payload = buf.payload := by
  unfold fkBufStretch
  split <;> rfl

@[simp]
theorem payload_resize (buf : FkBuf) (len : Nat) (room : buf.high ≤ len) :
    (buf.resize len room).payload = buf.payload := rfl

theorem payload_fkBufShrink (buf : FkBuf) : buf.fkBufShrink.payload = buf.payload := by
  unfold fkBufShrink
  split
  · exact payload_fkBufShift buf
  · rfl

/-- Consuming bytes drops them from the payload. -/
theorem payload_fkBufLowInc (buf : FkBuf) (offset : Nat) :
    (buf.fkBufLowInc offset).payload = buf.payload.drop offset := by
  have bounded := buf.low_le
  apply List.ext_getElem?
  intro index
  rw [List.getElem?_drop]
  by_cases inside : index < (buf.fkBufLowInc offset).fkBufPayloadLen
  · have lengths : (buf.fkBufLowInc offset).fkBufPayloadLen = buf.high - min
        (buf.low + offset) buf.high :=
      rfl
    have original : buf.fkBufPayloadLen = buf.high - buf.low := rfl
    rw [payload_getElem? inside, payload_getElem? (by omega)]
    change some (buf.buffer (min (buf.low + offset) buf.high + index)) = _
    rw [Nat.min_eq_left (by omega), Nat.add_assoc]
  · have lengths : (buf.fkBufLowInc offset).fkBufPayloadLen = buf.high - min
        (buf.low + offset) buf.high :=
      rfl
    have original : buf.fkBufPayloadLen = buf.high - buf.low := rfl
    rw [List.getElem?_eq_none (by rw [length_payload]; omega),
      List.getElem?_eq_none (by rw [length_payload]; omega)]

/-- Appending within the free space extends the payload. -/
theorem payload_append {buf : FkBuf} {bytes : Bytes} (room : bytes.length ≤ buf.fkBufFreeLen) :
    (buf.append bytes).payload = buf.payload ++ bytes := by
  have lowLe := buf.low_le
  have highLe := buf.high_le
  have free : buf.fkBufFreeLen = buf.len - buf.high := rfl
  have original : buf.fkBufPayloadLen = buf.high - buf.low := rfl
  have extended : (buf.append bytes).fkBufPayloadLen = buf.fkBufPayloadLen + bytes.length := by
    change min (buf.high + bytes.length) buf.len - buf.low = _
    omega
  apply List.ext_getElem?
  intro index
  by_cases inside : index < (buf.append bytes).fkBufPayloadLen
  · rw [payload_getElem? inside]
    change some (if buf.high ≤ buf.low + index ∧ buf.low + index < buf.high + bytes.length then
      bytes.getD (buf.low + index - buf.high) 0 else buf.buffer (buf.low + index)) = _
    by_cases old : index < buf.fkBufPayloadLen
    · rw [if_neg (by omega), List.getElem?_append_left (by rwa [length_payload]),
        payload_getElem? old]
    · rw [if_pos (by omega), List.getElem?_append_right (by rw [length_payload]; omega),
        length_payload, show buf.low + index - buf.high = index - buf.fkBufPayloadLen by omega,
        List.getD_eq_getElem?_getD, List.getElem?_eq_getElem (by omega), Option.getD_some]
  · rw [List.getElem?_eq_none (by rw [length_payload]; omega),
      List.getElem?_eq_none (by rw [List.length_append, length_payload]; omega)]

/-! ## The window under each operation -/

theorem append_high {buf : FkBuf} {bytes : Bytes} (room : bytes.length ≤ buf.fkBufFreeLen) :
    (buf.append bytes).high = buf.high + bytes.length := by
  have highLe := buf.high_le
  unfold fkBufFreeLen at room
  change min (buf.high + bytes.length) buf.len = _
  omega

/-- A successful `fk_buf_alloc` moves the payload down or not, and then resizes the block or not. -/
theorem fkBufAlloc_cases {buf grown : FkBuf} {length : Nat}
    (allocated : buf.fkBufAlloc length = some grown) :
    ∃ moved, (moved = buf ∨ moved = buf.fkBufShift) ∧
      (grown = moved ∨ ∃ len room, grown = moved.resize len room) := by
  refine ⟨if buf.fkBufFreeLen < length then buf.fkBufShift else buf, ?_, ?_⟩
  · split
    · exact .inr rfl
    · exact .inl rfl
  · unfold fkBufAlloc at allocated
    dsimp only at allocated
    generalize (if buf.fkBufFreeLen < length then buf.fkBufShift else buf) = moved at allocated ⊢
    split at allocated
    · obtain ⟨len, power, resized⟩ := Option.bind_eq_some_iff.mp allocated
      split at resized
      case isTrue room => exact .inr ⟨len, room, (Option.some.inj resized).symm⟩
      case isFalse => cases resized
    · exact .inl (Option.some.inj allocated).symm

theorem payload_fkBufAlloc {buf grown : FkBuf} {length : Nat}
    (allocated : buf.fkBufAlloc length = some grown) : grown.payload = buf.payload := by
  obtain ⟨moved, rfl | rfl, rfl | ⟨len, room, rfl⟩⟩ := fkBufAlloc_cases allocated <;> simp

/-- The bounds of a buffer are constants. -/
theorem bounds_fkBufAlloc {buf grown : FkBuf} {length : Nat}
    (allocated : buf.fkBufAlloc length = some grown) :
    grown.highwat = buf.highwat ∧ grown.initLen = buf.initLen := by
  obtain ⟨moved, rfl | rfl, rfl | ⟨len, room, rfl⟩⟩ := fkBufAlloc_cases allocated <;> simp [resize]

end FkBuf

end Freekick
