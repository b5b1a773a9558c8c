import Freekick.Blog.Load

/-!
# Where the loader of the binary log stands

Between two rounds the loader is at a position: the window of the read buffer, and the
state and the unread bytes of the request machine after what was read so far.  What a
round does, told by positions, says everything that later proofs need.
-/

namespace Freekick

open Lib.Resume

variable {σ : Type}

/-! ## Positions -/

/-- Between two rounds: the window, and the state and the unread bytes of the request
machine after what was read so far. -/
structure LoadPos where
  window : Window
  request : Request
  unread : Bytes

namespace LoadPos

def start : LoadPos := ⟨.fresh, .idle, []⟩

def ready (pos : LoadPos) : Window := pos.window.ready pos.unread.length

/-- The free space that the next read finds. -/
def free (pos : LoadPos) : Nat := pos.ready.free

/-- The request machine on the bytes of a read. -/
def stop (pos : LoadPos) (bytes : Bytes) : Stop UInt8 Request (List Bytes) :=
  requestMachine.run pos.request (pos.unread ++ bytes)

/-- The position after a round that reads `bytes`. -/
def next (pos : LoadPos) (bytes : Bytes) : LoadPos where
  window := Window.shrink ⟨pos.ready.len, pos.ready.high + bytes.length⟩
    (pos.stop bytes).unread.length
  request := (pos.stop bytes).state
  unread := (pos.stop bytes).unread

end LoadPos

theorem LoadPos.next_tidy {pos : LoadPos} (least : fkBufInitLen ≤ pos.window.len) (bytes : Bytes) :
    (pos.next bytes).window.Tidy (pos.next bytes).unread.length := by
  apply Window.shrink_tidy
  exact Window.ready_least least _

/-- A connection at that position. -/
structure LoadsAt (conn : FkConnIn) (pos : LoadPos) : Prop where
  shows : Shows conn pos.request
  payload : conn.rbuf.payload = pos.unread
  framed : conn.rbuf.Framed pos.window
  tidy : pos.window.Tidy pos.unread.length

theorem fkConnCreate_loads (type : FkConnType) (maxWbuf : Nat) :
    LoadsAt (fkConnCreate type maxWbuf).toFkConnIn .start where
  shows := fkConnCreate_shows type maxWbuf
  payload := rfl
  framed := ⟨rfl, rfl, rfl, rfl⟩
  tidy := ⟨Nat.le_refl _, fun _ => rfl⟩

theorem readLen_le_free (want : Option Nat) (free left : Nat) : readLen want free left ≤ free :=
  Nat.le_trans (Nat.min_le_right _ _) (Nat.min_le_left _ _)

theorem readLen_le_left (want : Option Nat) (free left : Nat) : readLen want free left ≤ left :=
  Nat.le_trans (Nat.min_le_right _ _) (Nat.min_le_right _ _)

section Round

variable {conn : FkConnIn} {pos : LoadPos} {want : Option Nat} {file : Bytes}

/-- A read that finds room. -/
structure Filled (pos : LoadPos) (bytes : Bytes) (filled : FkConnIn) : Prop where
  shows : Shows filled pos.request
  payload : filled.rbuf.payload = pos.unread ++ bytes
  framed : filled.rbuf.Framed ⟨pos.ready.len, pos.ready.high + bytes.length⟩

theorem fkBlogReadData_full (loads : LoadsAt conn pos) (full : pos.free = 0) :
    ∃ stuck, fkBlogReadData want conn file = (.err, stuck, file) := by
  have framed := loads.framed.ready
  rw [← FkBuf.length_payload, loads.payload] at framed
  have free : conn.rbuf.ready.fkBufFreeLen = 0 := framed.free.trans full
  unfold fkBlogReadData
  dsimp only
  rw [if_pos free]
  exact ⟨_, rfl⟩

theorem fkBlogReadData_room (loads : LoadsAt conn pos) (room : pos.free ≠ 0) :
    ∃ filled, fkBlogReadData want conn file =
        (if readLen want pos.free file.length < pos.free then .done else .ok, filled,
          file.drop (readLen want pos.free file.length)) ∧
      Filled pos (file.take (readLen want pos.free file.length)) filled := by
  have framed := loads.framed.ready
  rw [← FkBuf.length_payload, loads.payload] at framed
  have free : conn.rbuf.ready.fkBufFreeLen = pos.free := framed.free
  have taken : (file.take (readLen want pos.free file.length)).length = readLen want pos.free
      file.length :=
    List.length_take_of_le (readLen_le_left ..)
  unfold fkBlogReadData
  dsimp only
  rw [free, if_neg room]
  by_cases none : readLen want pos.free file.length = 0
  · rw [if_pos none, none, if_pos (Nat.pos_of_ne_zero room)]
    refine ⟨_, rfl, loads.shows.withRbuf _, ?_, framed⟩
    rw [List.take_zero, List.append_nil, FkBuf.payload_ready]
    exact loads.payload
  · rw [if_neg none]
    have fits : (file.take (readLen want pos.free file.length)).length ≤ pos.free := by
      rw [taken]
      exact readLen_le_free ..
    refine ⟨_, rfl, loads.shows.withRbuf _, ?_, framed.append fits⟩
    rw [FkBuf.payload_append (by rw [free]; exact fits), FkBuf.payload_ready, loads.payload]

theorem blogShrink_loads {request : Request} {window : Window} (shows : Shows conn request)
    (framed : conn.rbuf.Framed window) (least : fkBufInitLen ≤ window.len)
    (few : request.expected ≤ fkVtrInitLen) :
    LoadsAt (blogShrink conn) ⟨window.shrink conn.rbuf.payload.length, request, conn.rbuf.payload⟩ ∧
      (blogShrink conn).argSlots = conn.argSlots := by
  -- a vector of the initial length is not shrunk
  have same : conn.argVtr.fkVtrShrink = conn.argVtr := by
    rw [shows.vtr, Nat.max_eq_left few]
    unfold FkVtr.fkVtrShrink
    split
    · next longer =>
        have filled : request.args.length ≤ fkVtrInitLen := by
          have := request.args_le
          omega
        rw [FkVtr.fkVtrLen_filled filled] at longer
        exact absurd longer (Nat.lt_irrefl _)
    · rfl
  refine ⟨⟨⟨shows.parsed, shows.cnt, shows.arglen, shows.done, same.trans shows.vtr⟩, ?_, ?_, ?_⟩,
    ?_⟩
  · exact FkBuf.payload_fkBufShrink _
  · rw [FkBuf.length_payload]
    exact framed.fkBufShrink
  · exact Window.shrink_tidy least _
  · exact congrArg (fun vtr => vtr.array.take conn.argCnt) same

/-- The slots of a larger request are given back although they are still needed. -/
theorem blogShrink_short {request : Request} (shows : Shows conn request)
    (many : fkVtrInitLen < request.expected) : Short (blogShrink conn) := by
  have parsed : conn.argParsed = request.expected := shows.parsed
  have initLen : conn.argVtr.initLen = fkVtrInitLen := by
    rw [shows.vtr]
    rfl
  refine ⟨?_, ?_⟩
  · change conn.argParsed ≠ 0
    omega
  · change conn.argVtr.fkVtrShrink.fkVtrLen < conn.argParsed
    rw [parsed]
    refine Nat.lt_of_le_of_lt ?_ many
    unfold FkVtr.fkVtrShrink
    rw [initLen]
    split
    · exact List.length_take_le _ _
    · next short => exact Nat.le_of_not_lt short

end Round

/-! ## One round -/

/-- What a round of the loader does at a position. -/
inductive RoundSpec (proc : Proc σ) (fuel : Nat) (reads : List Nat) (pos : LoadPos) (state : σ)
    (file : Bytes) :
    LoadResult σ → Prop where
  | stuck {conn : FkConnIn} (full : pos.free = 0) :
      RoundSpec proc fuel reads pos state file ⟨conn, state, [], [], .closes⟩
  | stopped {conn : FkConnIn} {rlen : Nat} {exec : σ × List (List Bytes) × LoopEnd}
      (room : pos.free ≠ 0) (read : rlen = readLen reads.head? pos.free file.length)
      (ran : exec = execAll proc state (pos.stop (file.take rlen)).outputs)
      (ends : exec.2.2 ≠ .waits) :
      RoundSpec proc fuel reads pos state file
        ⟨conn, exec.1, exec.2.1.map (List.map some), [], exec.2.2⟩
  | ended {conn : FkConnIn} {before : List (Option Bytes)} {rlen : Nat}
      {exec : σ × List (List Bytes) × LoopEnd} (room : pos.free ≠ 0)
      (read : rlen = readLen reads.head? pos.free file.length)
      (ran : exec = execAll proc state (pos.stop (file.take rlen)).outputs)
      (waits : exec.2.2 = .waits) (shorter : rlen < pos.free)
      (few : (pos.next (file.take rlen)).request.expected ≤ fkVtrInitLen → conn.argSlots = before) :
      RoundSpec proc fuel reads pos state file
        ⟨conn, exec.1, exec.2.1.map (List.map some), [(before, conn.argSlots)], .waits⟩
  | goesOn {conn : FkConnIn} {before : List (Option Bytes)} {rlen : Nat}
      {exec : σ × List (List Bytes) × LoopEnd} {later : LoadResult σ} (room : pos.free ≠ 0)
      (read : rlen = readLen reads.head? pos.free file.length)
      (ran : exec = execAll proc state (pos.stop (file.take rlen)).outputs)
      (waits : exec.2.2 = .waits) (whole : rlen = pos.free)
      (continued : later = blogLoop proc fuel reads.tail conn exec.1 (file.drop rlen))
      (few : (pos.next (file.take rlen)).request.expected ≤ fkVtrInitLen →
        LoadsAt conn (pos.next (file.take rlen)) ∧ conn.argSlots = before)
      (many : fkVtrInitLen < (pos.next (file.take rlen)).request.expected → Short conn) :
      RoundSpec proc fuel reads pos state file
        ⟨later.conn, later.state, exec.2.1.map (List.map some) ++ later.handed,
          (before, conn.argSlots) :: later.shrinks, later.ending⟩

theorem blogLoop_round (proc : Proc σ) (fuel : Nat) (reads : List Nat) {conn : FkConnIn}
    {pos : LoadPos} (state : σ) {file : Bytes} (loads : LoadsAt conn pos)
    (fine : (pos.stop (file.take (readLen reads.head? pos.free file.length))).failed = false) :
    RoundSpec proc fuel reads pos state file (blogLoop proc (fuel + 1) reads conn state file) := by
  rw [blogLoop]
  by_cases full : pos.free = 0
  · obtain ⟨stuck, read⟩ := @fkBlogReadData_full conn pos reads.head? file loads full
    rw [read]
    exact .stuck full
  · obtain ⟨filled, read, shows, payload, framed⟩ :=
      @fkBlogReadData_room conn pos reads.head? file loads full
    rw [read]
    generalize known : readLen reads.head? pos.free file.length = rlen at *
    have notErr : (if rlen < pos.free then FkRt.done else .ok) ≠ .err := by
      split
      · decide
      · decide
    have spec := reqLoop_spec proc state shows (Nat.le_refl filled.rbuf.fkBufPayloadLen)
    have frame := reqLoop_frame proc filled.rbuf.fkBufPayloadLen filled state
    rw [payload] at spec
    dsimp only
    rw [if_neg notErr]
    generalize reqLoop proc filled.rbuf.fkBufPayloadLen filled state = round at spec frame ⊢
    by_cases waits : (execAll proc state (pos.stop (file.take rlen)).outputs).2.2 = .waits
    · obtain ⟨ending, shown, left⟩ := spec.settled waits fine
      have few : (pos.next (file.take rlen)).request.expected ≤ fkVtrInitLen →
          LoadsAt (blogShrink round.conn) (pos.next (file.take rlen)) ∧
            (blogShrink round.conn).argSlots = round.conn.argSlots := by
        have few := blogShrink_loads shown (framed.of_frame frame)
          (Window.ready_least loads.tidy.least _)
        rw [left] at few
        exact few
      have many : fkVtrInitLen < (pos.next (file.take rlen)).request.expected →
          Short (blogShrink round.conn) := blogShrink_short shown
      rw [if_pos ending, spec.state, spec.handed]
      by_cases shorter : rlen < pos.free
      · rw [if_pos shorter, if_pos rfl]
        dsimp only
        rw [List.append_nil]
        exact .ended full known.symm rfl waits shorter fun bound => (few bound).2
      · rw [if_neg shorter, if_neg (by decide)]
        have whole : rlen = pos.free :=
          Nat.le_antisymm (known ▸ readLen_le_free ..) (Nat.le_of_not_lt shorter)
        exact .goesOn full known.symm rfl waits whole rfl few many
    · have ending := spec.stopped waits
      rw [if_neg (by rw [ending]; exact waits)]
      rw [spec.state, spec.handed, ending]
      exact .stopped full known.symm rfl waits

end Freekick
