import Freekick.Store.Reply

/-!
# Room in a write buffer

Whether a reply is accepted depends on two numbers: the length of the write buffer and
the bytes that are queued in it.  `fk_buf_alloc` moves the queued bytes down before it
asks for more memory, so it does not matter where they lie.
-/

namespace Freekick

open Lib.Call

/-- The length of the write buffer and the bytes that are queued in it. -/
structure Space where
  len : Nat
  used : Nat
  deriving DecidableEq

namespace Space

variable {maxWbuf : Nat}

/-- Queue a reply: in the free space, or in a buffer that is still allowed to grow.  A new
length that is not an `int` is undefined. -/
def reserve (maxWbuf : Nat) (space : Space) (len : Nat) : Option Space :=
  if space.used + len ≤ space.len then some ⟨space.len, space.used + len⟩
  else if space.len < maxWbuf then
    (fkUtilMinPower (space.used + len)).map fun grown => ⟨grown, space.used + len⟩
  else none

/-- Queue one reply after the other. -/
def reserveAll (maxWbuf : Nat) : Space → List Nat → Option Space
  | space, [] => some space
  | space, len :: rest => (space.reserve maxWbuf len).bind fun next => next.reserveAll maxWbuf rest

theorem reserveAll_append (space : Space) (lens more : List Nat) :
    space.reserveAll maxWbuf (lens ++ more) =
      (space.reserveAll maxWbuf lens).bind fun next => next.reserveAll maxWbuf more := by
  induction lens generalizing space with
  | nil => rfl
  | cons len rest ih =>
      rw [List.cons_append, reserveAll, reserveAll]
      cases space.reserve maxWbuf len with
      | none => rfl
      | some next => exact ih next

/-- The first reply that does not fit finds a buffer that is still allowed to grow, but not
to that length. -/
def Overflows (maxWbuf : Nat) : Space → List Nat → Prop
  | _, [] => False
  | space, len :: rest =>
      match space.reserve maxWbuf len with
      | some next => next.Overflows maxWbuf rest
      | none => space.len < maxWbuf

theorem overflows_cons (space : Space) (len : Nat) (rest : List Nat) :
    space.Overflows maxWbuf (len :: rest) = match space.reserve maxWbuf len with
      | some next => next.Overflows maxWbuf rest
      | none => space.len < maxWbuf := rfl

theorem Overflows.reserveAll {space : Space} {lens : List Nat}
    (overflows : space.Overflows maxWbuf lens) :
    space.reserveAll maxWbuf lens = none := by
  induction lens generalizing space with
  | nil => exact overflows.elim
  | cons len rest ih =>
      rw [overflows_cons] at overflows
      rw [Space.reserveAll]
      cases reserved : space.reserve maxWbuf len with
      | none => rfl
      | some next =>
          rw [reserved] at overflows
          exact ih overflows

instance decidableOverflows (space : Space) (lens : List Nat) :
    Decidable (space.Overflows maxWbuf lens) :=
  match lens with
  | [] => isFalse id
  | len :: rest =>
      match reserved : space.reserve maxWbuf len with
      | some next =>
          have := decidableOverflows next rest
          decidable_of_iff (next.Overflows maxWbuf rest) (by rw [overflows_cons, reserved])
      | none => decidable_of_iff (space.len < maxWbuf) (by rw [overflows_cons, reserved])

end Space

/-! ## The next power of two -/

section MinPower

variable {n power exponent : Nat}

theorem fkUtilMinPower_cases (known : fkUtilMinPower n = some power) :
    (n = 0 ∧ power = 1) ∨ (n ≠ 0 ∧ n < 2 ^ 30 ∧ power = 2 ^ (n.log2 + 1)) := by
  unfold fkUtilMinPower at known
  split at known
  · next zero =>
      cases known
      exact .inl ⟨zero, rfl⟩
  · next nonzero =>
      split at known
      · next small =>
          cases known
          exact .inr ⟨nonzero, small, rfl⟩
      · cases known

theorem fkUtilMinPower_gt (known : fkUtilMinPower n = some power) : n < power := by
  rcases fkUtilMinPower_cases known with ⟨rfl, rfl⟩ | ⟨_, _, rfl⟩
  · exact Nat.one_pos
  · exact Nat.lt_log2_self

theorem fkUtilMinPower_le (below : n < 2 ^ exponent) (known : fkUtilMinPower n = some power) :
    power ≤ 2 ^ exponent := by
  rcases fkUtilMinPower_cases known with ⟨_, rfl⟩ | ⟨nonzero, _, rfl⟩
  · exact Nat.one_le_two_pow
  · exact Nat.pow_le_pow_right Nat.two_pos ((Nat.log2_lt nonzero).mpr below)

/-- The power is a number of the type `int`. -/
theorem fkUtilMinPower_lt (known : fkUtilMinPower n = some power) : power < 2 ^ 31 := by
  rcases fkUtilMinPower_cases known with ⟨_, rfl⟩ | ⟨_, small, _⟩
  · decide
  · have rounded : power ≤ 2 ^ 30 := fkUtilMinPower_le small known
    omega

theorem fkUtilMinPower_isSome {n : Nat} (small : n < 2 ^ 30) :
    ∃ power, fkUtilMinPower n = some power := by
  unfold fkUtilMinPower
  rw [if_pos small]
  split <;> exact ⟨_, rfl⟩

end MinPower

/-! ## Reservations -/

section Reserve

variable {maxWbuf len : Nat} {space : Space}

theorem Space.reserve_fits (fits : space.used + len ≤ space.len) :
    space.reserve maxWbuf len = some ⟨space.len, space.used + len⟩ := if_pos fits

theorem Space.reserve_grows (full : ¬ space.used + len ≤ space.len) (grows : space.len < maxWbuf) :
    space.reserve maxWbuf len = (fkUtilMinPower (space.used + len)).map fun grown =>
      ⟨grown, space.used + len⟩ :=
  (if_neg full).trans (if_pos grows)

theorem Space.reserve_refused (full : ¬ space.used + len ≤ space.len)
    (limit : ¬ space.len < maxWbuf) :
    space.reserve maxWbuf len = none := (if_neg full).trans (if_neg limit)

end Reserve

/-- Replies below half of the limit of `fk_util_min_power` never overflow a buffer that may
not grow beyond the other half. -/
theorem Space.not_overflows {maxWbuf : Nat} {lens : List Nat} (small : maxWbuf < 2 ^ 29)
    (short : ∀ len ∈ lens, len < 2 ^ 29) {space : Space} (within : space.used ≤ space.len) :
    ¬ space.Overflows maxWbuf lens := by
  induction lens generalizing space with
  | nil => exact id
  | cons len rest ih =>
      obtain ⟨here, there⟩ := List.forall_mem_cons.mp short
      rw [Space.overflows_cons]
      by_cases fits : space.used + len ≤ space.len
      · rw [Space.reserve_fits fits]
        exact ih there fits
      · by_cases grows : space.len < maxWbuf
        · obtain ⟨grown, power⟩ := fkUtilMinPower_isSome (show space.used + len < 2 ^ 30 by omega)
          rw [Space.reserve_grows fits grows, power, Option.map_some]
          exact ih there (Nat.le_of_lt (fkUtilMinPower_gt power))
        · rw [Space.reserve_refused fits grows]
          exact grows

/-- The queued bytes, wherever they lie. -/
def FkBuf.load (buf : FkBuf) : Space := ⟨buf.len, buf.fkBufPayloadLen⟩

/-! ## One reply -/

/-- A buffer with room for a reply, and the same bytes in it. -/
structure Grown (buf grown : FkBuf) (len total : Nat) : Prop where
  room : len ≤ grown.fkBufFreeLen
  len : grown.len = total
  highwat : grown.highwat = buf.highwat
  payload : grown.payload = buf.payload

theorem fkBufAlloc_moved (buf : FkBuf) (len : Nat) (short : buf.fkBufFreeLen < len) :
    buf.fkBufAlloc len =
      if buf.fkBufShift.fkBufFreeLen < len ∧ buf.len < buf.highwat then
        (fkUtilMinPower (buf.fkBufPayloadLen + len)).bind fun grown =>
          if room : buf.fkBufShift.high ≤ grown then
            some (buf.fkBufShift.resize grown room) else none
      else some buf.fkBufShift := by
  have highLe := buf.fkBufShift.high_le
  have high := buf.fkBufShift_high
  have lenEq := buf.fkBufShift_len
  have free : buf.fkBufShift.fkBufFreeLen = buf.fkBufShift.len - buf.fkBufShift.high := rfl
  have total : buf.len + len - buf.fkBufShift.fkBufFreeLen = buf.fkBufPayloadLen + len := by omega
  unfold FkBuf.fkBufAlloc
  dsimp only
  rw [if_pos short, FkBuf.fkBufShift_len, FkBuf.fkBufShift_highwat, total]

/-- What `fk_buf_alloc` does before a reply is copied. -/
theorem fkBufAlloc_reserve (buf : FkBuf) (len : Nat) :
    match buf.load.reserve buf.highwat len with
    | some next => ∃ grown, buf.fkBufAlloc len = some grown ∧ Grown buf grown len next.len ∧
        next.used = buf.fkBufPayloadLen + len
    | none => if buf.len < buf.highwat then buf.fkBufAlloc len = none
        else ∃ grown, buf.fkBufAlloc len = some grown ∧ grown.fkBufFreeLen < len := by
  have lowLe := buf.low_le
  have highLe := buf.high_le
  have free : buf.fkBufFreeLen = buf.len - buf.high := rfl
  have used : buf.fkBufPayloadLen = buf.high - buf.low := rfl
  have high := buf.fkBufShift_high
  have moved : buf.fkBufShift.fkBufFreeLen = buf.len - buf.fkBufPayloadLen := by
    unfold FkBuf.fkBufFreeLen
    rw [high, FkBuf.fkBufShift_len]
  unfold Space.reserve FkBuf.load
  dsimp only
  by_cases direct : len ≤ buf.fkBufFreeLen
  · rw [if_pos (by omega)]
    exact ⟨buf, fkBufAlloc_room direct, ⟨direct, rfl, rfl, rfl⟩, rfl⟩
  · have short : buf.fkBufFreeLen < len := Nat.not_le.mp direct
    rw [fkBufAlloc_moved buf len short]
    by_cases fits : buf.fkBufPayloadLen + len ≤ buf.len
    · rw [if_pos fits, if_neg (by omega)]
      exact ⟨buf.fkBufShift, rfl,
        ⟨by omega, buf.fkBufShift_len, buf.fkBufShift_highwat, buf.payload_fkBufShift⟩, rfl⟩
    · rw [if_neg fits]
      by_cases small : buf.len < buf.highwat
      · rw [if_pos small, if_pos ⟨by omega, small⟩]
        cases power : fkUtilMinPower (buf.fkBufPayloadLen + len) with
        | none =>
            rw [Option.map_none]
            exact (if_pos small).mpr rfl
        | some grown =>
            have larger := fkUtilMinPower_gt power
            have room : buf.fkBufShift.high ≤ grown := by omega
            rw [Option.map_some, Option.bind_some, dif_pos room]
            refine ⟨_, rfl, ⟨?_, rfl, buf.fkBufShift_highwat, buf.payload_fkBufShift⟩, rfl⟩
            change len ≤ grown - buf.fkBufShift.high
            omega
      · rw [if_neg small, if_neg (fun both => small both.2)]
        exact (if_neg small).mpr ⟨buf.fkBufShift, rfl, by omega⟩

/-- A reply of that length is refused: it does not fit, and the buffer may not grow. -/
def FkBuf.Refuses (buf : FkBuf) (len : Nat) : Prop :=
  buf.len < buf.fkBufPayloadLen + len ∧ buf.highwat ≤ buf.len

instance (buf : FkBuf) (len : Nat) : Decidable (buf.Refuses len) :=
  inferInstanceAs (Decidable (buf.len < buf.fkBufPayloadLen + len ∧ buf.highwat ≤ buf.len))

/-- The block is moved, but it does not grow. -/
theorem FkBuf.Refuses.alloc {buf : FkBuf} {len : Nat} (refused : buf.Refuses len) :
    buf.fkBufAlloc len = some buf.fkBufShift ∧ buf.fkBufShift.fkBufFreeLen < len := by
  obtain ⟨beyond, full⟩ := refused
  have lowLe := buf.low_le
  have highLe := buf.high_le
  have used : buf.fkBufPayloadLen = buf.high - buf.low := rfl
  have free : buf.fkBufFreeLen = buf.len - buf.high := rfl
  constructor
  · rw [fkBufAlloc_moved buf len (by omega),
      if_neg (fun grows => absurd grows.2 (Nat.not_lt.mpr full))]
  · rw [FkBuf.fkBufFreeLen, FkBuf.fkBufShift_len, FkBuf.fkBufShift_high]
    omega

/-- A reply that is not refused has its space reserved, unless the growth overflows. -/
theorem FkBuf.reserve_of_accepted {buf : FkBuf} {len : Nat} (accepted : ¬ buf.Refuses len) :
    (buf.fkBufPayloadLen + len ≤ buf.len ∧
        buf.load.reserve buf.highwat len = some ⟨buf.len, buf.fkBufPayloadLen + len⟩) ∨
      (buf.len < buf.fkBufPayloadLen + len ∧ buf.len < buf.highwat ∧
        buf.load.reserve buf.highwat len = (fkUtilMinPower (buf.fkBufPayloadLen + len)).map
          fun grown => ⟨grown, buf.fkBufPayloadLen + len⟩) := by
  by_cases fits : buf.fkBufPayloadLen + len ≤ buf.len
  · exact .inl ⟨fits, Space.reserve_fits fits⟩
  · have beyond := Nat.not_le.mp fits
    have grows : buf.len < buf.highwat := Nat.not_le.mp fun full => accepted ⟨beyond, full⟩
    exact .inr ⟨beyond, grows, Space.reserve_grows fits grows⟩

/-- The bytes of a reply, as its calls print them. -/
def Reply.queued (junk : Nat → UInt8) (reply : Reply) : Bytes :=
  reply.calls.flatMap fun rsp => printed junk rsp.text rsp.len

/-- What a call leaves in the write buffer. -/
structure Queued (junk : Nat → UInt8) (rsps : List Rsp) (wbuf after : FkBuf)
    (space : Space) : Prop where
  load : after.load = space
  highwat : after.highwat = wbuf.highwat
  payload : after.payload = wbuf.payload ++ rsps.flatMap fun rsp => printed junk rsp.text rsp.len

section Queue

variable {junk : Nat → UInt8} {wbuf : FkBuf}

theorem Rsp.queue_reserve (junk : Nat → UInt8) (rsp : Rsp) (wbuf : FkBuf) :
    match wbuf.load.reserve wbuf.highwat rsp.len with
    | some next => ∃ after, rsp.queue junk wbuf = .ok () after ∧ Queued junk [rsp] wbuf after next
    | none => if wbuf.len < wbuf.highwat then rsp.queue junk wbuf = .fault
        else ∃ after, rsp.queue junk wbuf = .err after := by
  have alloc := fkBufAlloc_reserve wbuf rsp.len
  cases reserved : wbuf.load.reserve wbuf.highwat rsp.len with
  | some next =>
      rw [reserved] at alloc
      obtain ⟨grown, allocated, fits, used⟩ := alloc
      have room : (printed junk rsp.text rsp.len).length ≤ grown.fkBufFreeLen := by
        rw [length_printed]
        exact fits.room
      have payload := FkBuf.payload_append room
      rw [fits.payload] at payload
      refine ⟨grown.append (printed junk rsp.text rsp.len), ?_, ?_, fits.highwat, ?_⟩
      · unfold Rsp.queue
        rw [allocated]
        exact if_neg (Nat.not_lt.mpr fits.room)
      · have lengths := congrArg List.length payload
        rw [List.length_append, FkBuf.length_payload, FkBuf.length_payload, length_printed,
          ← used] at lengths
        unfold FkBuf.load
        rw [lengths]
        change Space.mk grown.len next.used = next
        rw [fits.len]
      · rw [payload, List.flatMap_cons, List.flatMap_nil, List.append_nil]
  | none =>
      rw [reserved] at alloc
      dsimp only at alloc ⊢
      unfold Rsp.queue
      split at alloc
      · next small =>
          rw [if_pos small, alloc]
      · next large =>
          obtain ⟨grown, allocated, short⟩ := alloc
          rw [if_neg large, allocated]
          exact ⟨grown, if_pos short⟩

theorem Rsp.queue_refused {rsp : Rsp} (refused : wbuf.Refuses rsp.len) :
    rsp.queue junk wbuf = .err wbuf.fkBufShift := by
  unfold Rsp.queue
  rw [refused.alloc.1]
  exact if_pos refused.alloc.2

/-- A call fails exactly when it is refused. -/
theorem Rsp.queue_err_iff {rsp : Rsp} : (∃ after, rsp.queue junk wbuf = .err after) ↔
    wbuf.Refuses rsp.len := by
  have spec := Rsp.queue_reserve junk rsp wbuf
  by_cases refused : wbuf.Refuses rsp.len
  · exact iff_of_true ⟨wbuf.fkBufShift, Rsp.queue_refused refused⟩ refused
  · refine iff_of_false ?_ refused
    rcases FkBuf.reserve_of_accepted refused with ⟨_, reserved⟩ | ⟨_, grows, reserved⟩
    · rw [reserved] at spec
      obtain ⟨after, called, _⟩ := spec
      rw [called]
      nofun
    · rw [reserved] at spec
      cases power : fkUtilMinPower (wbuf.fkBufPayloadLen + rsp.len) with
      | none =>
          rw [power] at spec
          rw [show rsp.queue junk wbuf = .fault from (if_pos grows).mp spec]
          nofun
      | some grown =>
          rw [power] at spec
          obtain ⟨after, called, _⟩ := spec
          rw [called]
          nofun

/-! ## One reply after the other -/

theorem Queued.trans {rsp : Rsp} {rest : List Rsp} {middle after : FkBuf} {next space : Space}
    (first : Queued junk [rsp] wbuf middle next) (later : Queued junk rest middle after space) :
    Queued junk (rsp :: rest) wbuf after space where
  load := later.load
  highwat := later.highwat.trans first.highwat
  payload := by
    rw [later.payload, first.payload, List.flatMap_cons, List.flatMap_cons, List.flatMap_nil,
      List.append_nil, List.append_assoc]

/-- The calls succeed when all of them fit; else the first that does not is refused, unless
its growth overflows. -/
theorem queueAll_reserve (junk : Nat → UInt8) (rsps : List Rsp) (wbuf : FkBuf) :
    match wbuf.load.reserveAll wbuf.highwat (rsps.map Rsp.len) with
    | some space =>
        ∃ after, queueAll junk rsps wbuf = .ok () after ∧ Queued junk rsps wbuf after space
    | none =>
        (wbuf.load.Overflows wbuf.highwat (rsps.map Rsp.len) ∧ queueAll junk rsps wbuf = .fault) ∨
        (¬ wbuf.load.Overflows wbuf.highwat (rsps.map Rsp.len) ∧
          ∃ after, queueAll junk rsps wbuf = .err after) := by
  induction rsps generalizing wbuf with
  | nil => exact ⟨wbuf, rfl, rfl, rfl, by rw [List.flatMap_nil, List.append_nil]⟩
  | cons rsp rest ih =>
      have first := Rsp.queue_reserve junk rsp wbuf
      rw [List.map_cons, Space.reserveAll, Space.overflows_cons]
      cases reserved : wbuf.load.reserve wbuf.highwat rsp.len with
      | none =>
          rw [reserved] at first
          dsimp only at first
          split at first
          · next small => exact .inl ⟨small, Act.bind_fault first⟩
          · next large =>
              obtain ⟨after, refused⟩ := first
              exact .inr ⟨large, after, Act.bind_err refused⟩
      | some next =>
          rw [reserved] at first
          obtain ⟨middle, called, queued⟩ := first
          have later := ih middle
          have both : queueAll junk (rsp :: rest) wbuf = queueAll junk rest middle :=
            Act.bind_ok called
          rw [queued.load, queued.highwat] at later
          rw [Option.bind_some, both]
          cases all : next.reserveAll wbuf.highwat (rest.map Rsp.len) with
          | none =>
              rw [all] at later
              exact later
          | some space =>
              rw [all] at later
              obtain ⟨after, finished, more⟩ := later
              exact ⟨after, finished, queued.trans more⟩

theorem reserve_of_queueAll {rsps : List Rsp} {after : FkBuf}
    (called : queueAll junk rsps wbuf = .ok () after) :
    (wbuf.load.reserveAll wbuf.highwat (rsps.map Rsp.len)).isSome = true := by
  have spec := queueAll_reserve junk rsps wbuf
  cases reserved : wbuf.load.reserveAll wbuf.highwat (rsps.map Rsp.len) with
  | some space => rfl
  | none =>
      rw [reserved, called] at spec
      rcases spec with ⟨_, fault⟩ | ⟨_, _, err⟩
      · cases fault
      · cases err

theorem queued_of_ok {rsps : List Rsp} {after : FkBuf}
    (called : queueAll junk rsps wbuf = .ok () after) :
    ∃ space, Queued junk rsps wbuf after space := by
  have spec := queueAll_reserve junk rsps wbuf
  obtain ⟨space, reserved⟩ := Option.isSome_iff_exists.mp (reserve_of_queueAll called)
  rw [reserved] at spec
  obtain ⟨other, same, queued⟩ := spec
  rw [called] at same
  cases same
  exact ⟨space, queued⟩

/-- Calls that have room for all of their bytes. -/
theorem queueAll_of_reserve {rsps : List Rsp}
    (fits : (wbuf.load.reserveAll wbuf.highwat (rsps.map Rsp.len)).isSome = true) :
    ∃ after, queueAll junk rsps wbuf = .ok () after := by
  have spec := queueAll_reserve junk rsps wbuf
  obtain ⟨space, reserved⟩ := Option.isSome_iff_exists.mp fits
  rw [reserved] at spec
  obtain ⟨after, called, _⟩ := spec
  exact ⟨after, called⟩

/-- The calls are undefined exactly when a growth overflows. -/
theorem queueAll_eq_fault {rsps : List Rsp} :
    queueAll junk rsps wbuf = .fault ↔ wbuf.load.Overflows wbuf.highwat (rsps.map Rsp.len) := by
  have spec := queueAll_reserve junk rsps wbuf
  cases reserved : wbuf.load.reserveAll wbuf.highwat (rsps.map Rsp.len) with
  | some space =>
      rw [reserved] at spec
      obtain ⟨after, called, _⟩ := spec
      rw [called]
      refine iff_of_false nofun fun overflows => ?_
      rw [overflows.reserveAll] at reserved
      cases reserved
  | none =>
      rw [reserved] at spec
      rcases spec with ⟨overflows, called⟩ | ⟨fits, after, called⟩
      · exact iff_of_true called overflows
      · rw [called]
        exact iff_of_false nofun fits

end Queue

end Freekick
