import Freekick.Net.Window

/-!
# Loading the binary log: `fk_blog_load`

The loader reads the log through a connection without a client.  It fills the free
space of the read buffer, runs the commands that are complete and then gives memory
back: it shrinks the buffer and the argument vector after every read, also in the
middle of a command.  A read that returns less than the free space counts as the end
of the file.
-/

namespace Freekick

open Lib.Resume

/-! ## The source -/

/-- How much `read` returns: some bytes up to the free space and the end of the file.  It
is up to the system to return less than it could. -/
def readLen (want : Option Nat) (free left : Nat) : Nat :=
  min (max 1 (want.getD free)) (min free left)

/-- `fk_blog_read_data`, with what is left of the file. -/
def fkBlogReadData (want : Option Nat) (conn : FkConnIn) (file : Bytes) : FkRt × FkConnIn × Bytes :=
  let rbuf := conn.rbuf.ready
  let freeLen := rbuf.fkBufFreeLen
  if freeLen = 0 then (.err, { conn with rbuf := rbuf }, file)
  else
    let rlen := readLen want freeLen file.length
    if rlen = 0 then (.done, { conn with rbuf := rbuf }, file)
    else
      (if rlen < freeLen then .done else .ok, { conn with rbuf := rbuf.append (file.take rlen) },
        file.drop rlen)

/-- What the loader leaves, with the commands it handed on and the argument slots before
and after each `fk_vtr_shrink`. -/
structure LoadResult (σ : Type) where
  conn : FkConnIn
  state : σ
  handed : List (List (Option Bytes))
  shrinks : List (List (Option Bytes) × List (Option Bytes))
  ending : LoopEnd

/-- The end of a round. -/
def blogShrink (conn : FkConnIn) : FkConnIn :=
  { conn with rbuf := conn.rbuf.fkBufShrink, argVtr := conn.argVtr.fkVtrShrink }

variable {σ : Type}

/-- The loop of `fk_blog_load`; `reads` says what the reads return, and later reads return
all they can.  A round that is not the last one reads a byte, so one more than the length
of the file is enough fuel. -/
def blogLoop (proc : Proc σ) : Nat → List Nat → FkConnIn → σ → Bytes → LoadResult σ
  | 0, _, conn, state, _ => ⟨conn, state, [], [], .waits⟩
  | fuel + 1, reads, conn, state, file =>
      let (rt, filled, rest) := fkBlogReadData reads.head? conn file
      if rt = .err then ⟨filled, state, [], [], .closes⟩
      else
        let round := reqLoop proc filled.rbuf.fkBufPayloadLen filled state
        if round.ending = .waits then
          let shrunk := blogShrink round.conn
          let later :=
            if rt = .done then ⟨shrunk, round.state, [], [], .waits⟩
            else blogLoop proc fuel reads.tail shrunk round.state rest
          { later with
            handed := round.handed ++ later.handed
            shrinks := (round.conn.argSlots, shrunk.argSlots) :: later.shrinks }
        else ⟨round.conn, round.state, round.handed, [], round.ending⟩

def fkBlogLoad (proc : Proc σ) (reads : List Nat) (conn : FkConnIn) (state : σ) (file : Bytes) :
    LoadResult σ :=
  blogLoop proc (file.length + 1) reads conn state file

/-! ## A vector that is too short -/

/-- The pending request has more arguments than the vector has slots. -/
structure Short (conn : FkConnIn) : Prop where
  busy : conn.argParsed ≠ 0
  slots : conn.argVtr.fkVtrLen < conn.argParsed

theorem Short.of_frame {conn after : FkConnIn} (short : Short conn) (kept : ParseFrame conn after) :
    Short after := by
  refine ⟨?_, ?_⟩
  · rw [kept.parsed]
    exact short.busy
  · rw [kept.parsed, kept.slots]
    exact short.slots

/-- Such a request never completes. -/
theorem Short.fkConnParseReq {conn after : FkConnIn} {rt : FkRt} (short : Short conn)
    (called : fkConnParseReq conn = some (rt, after)) :
    (rt = .again ∨ rt = .err) ∧ Short after := by
  unfold Freekick.fkConnParseReq at called
  rw [if_neg fun both => short.busy both.1] at called
  obtain ⟨kept, room⟩ := parseArgs_frame called
  refine ⟨?_, short.of_frame kept⟩
  rcases room with waits | fails | fits
  · exact .inl waits
  · exact .inr fails
  · exact absurd fits (Nat.not_le.mpr short.slots)

theorem Short.reqLoop {conn : FkConnIn} (short : Short conn) (proc : Proc σ) (fuel : Nat)
    (state : σ) :
    (reqLoop proc fuel conn state).handed = [] ∧ Short (reqLoop proc fuel conn state).conn := by
  cases fuel with
  | zero => exact ⟨rfl, short⟩
  | succ fuel =>
      rw [Freekick.reqLoop]
      split
      · exact ⟨rfl, short⟩
      · split
        · exact ⟨rfl, short⟩
        · next parsed called => exact ⟨rfl, (short.fkConnParseReq called).2⟩
        · next parsed called => exact ⟨rfl, (short.fkConnParseReq called).2⟩
        · next code parsed notErr notAgain called =>
            rcases (short.fkConnParseReq called).1 with rfl | rfl
            · exact (notAgain rfl).elim
            · exact (notErr rfl).elim

theorem Short.blogShrink {conn : FkConnIn} (short : Short conn) : Short (blogShrink conn) := by
  refine ⟨short.busy, Nat.lt_of_le_of_lt ?_ short.slots⟩
  change conn.argVtr.fkVtrShrink.fkVtrLen ≤ conn.argVtr.fkVtrLen
  unfold FkVtr.fkVtrShrink
  split
  · exact List.length_take_le' _ _
  · exact Nat.le_refl _

theorem fkBlogReadData_short {conn : FkConnIn} (short : Short conn) (want : Option Nat)
    (file : Bytes) :
    Short (fkBlogReadData want conn file).2.1 := by
  unfold fkBlogReadData
  dsimp only
  split
  · exact ⟨short.busy, short.slots⟩
  · split
    · exact ⟨short.busy, short.slots⟩
    · exact ⟨short.busy, short.slots⟩

/-- From then on the loader hands nothing on. -/
theorem Short.blogLoop {conn : FkConnIn} (short : Short conn) (proc : Proc σ) (fuel : Nat)
    (reads : List Nat) (state : σ) (file : Bytes) :
    (blogLoop proc fuel reads conn state file).handed = [] := by
  induction fuel generalizing conn reads state file with
  | zero => rfl
  | succ fuel ih =>
      have filledShort := fkBlogReadData_short short reads.head? file
      rw [Freekick.blogLoop]
      generalize fkBlogReadData reads.head? conn file = data at filledShort
      obtain ⟨rt, filled, rest⟩ := data
      obtain ⟨none, roundShort⟩ := filledShort.reqLoop proc filled.rbuf.fkBufPayloadLen state
      dsimp only
      split
      · rfl
      · split
        · dsimp only
          rw [none, List.nil_append]
          split
          · rfl
          · exact ih roundShort.blogShrink _ _ _
        · exact none

end Freekick
