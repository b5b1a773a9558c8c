import Freekick.Kdb.Dump

/-!
# Saving when input and output fail: `fk_kdb_save`

Every call that `fk_kdb_save` makes on the temporary file may fail.  A write that fails is
noticed.  The results of `fflush` and `fclose` are not looked at: bytes that the stream
took may be lost there, and the file is renamed all the same.
-/

namespace Freekick

open Lib.Call Lib.Little

/-! ## Saving -/

/-- How `fflush` and `fclose` end.  A failure leaves so many bytes at the end behind, which
stay in the buffer or are lost. -/
inductive FlushEnd where
  | done
  | fails (behind : Nat) (kept : Bool)
  deriving DecidableEq, Repr

/-- What happens to the calls of one save.  A write fails when one of its bytes is not taken,
and `fsync` changes nothing about the contents. -/
structure SaveIo where
  fopen : Bool
  takes : Nat → Bool
  fflush : FlushEnd
  fsync : Bool
  fclose : FlushEnd
  rename : Bool

/-- The bytes that reached the file, and those in the buffer. -/
structure FkStream where
  written : Bytes
  buffer : Bytes

def FkStream.flush (stream : FkStream) : FlushEnd → FkStream
  | .done => ⟨stream.written ++ stream.buffer, []⟩
  | .fails behind kept =>
      let count := stream.buffer.length - behind
      ⟨stream.written ++ stream.buffer.take count, if kept then stream.buffer.drop count else []⟩

/-- `fwrite` on a stream that is given by the bytes that it took so far. -/
def fwriteIo (takes : Nat → Bool) (bytes : Bytes) : Act Bytes Nat := fun file =>
  if bytes.length = 0 then .ok 0 file
  else if ∀ offset < bytes.length, takes (file.length + offset) = true then .ok 1 (file ++ bytes)
  else .ok 0 file

/-- `fk_kdb_save`; what the temporary file holds matters only when it is renamed. -/
def fkKdbSaveIo (io : SaveIo) (rt : FkRt) (svr : FkSvr) : FkRt × FkSvr :=
  if io.fopen = false then (.err, svr)
  else
    match dumpDbsOn (fwriteIo io.takes) rt svr [] with
    | .ok _ file =>
        let closed := ((FkStream.mk [] file).flush io.fflush).flush io.fclose
        if io.rename = false then (.err, svr) else (.ok, { svr with dbFile := some closed.written })
    | _ => (.err, svr)

/-! ## What should hold -/

/-- A dump of the whole state: what is written when nothing fails. -/
def CompleteDump (rt : FkRt) (svr : FkSvr) (file : Bytes) : Prop := dumpDbs rt svr [] = .ok () file

/-- The dump file is the old one or a complete dump, and a complete dump after `FK_SVR_OK`. -/
structure SavesSafely (io : SaveIo) (rt : FkRt) (svr : FkSvr) : Prop where
  intact : (fkKdbSaveIo io rt svr).2.dbFile = svr.dbFile ∨
    ∃ file, CompleteDump rt svr file ∧ (fkKdbSaveIo io rt svr).2.dbFile = some file
  complete : (fkKdbSaveIo io rt svr).1 = .ok →
    ∃ file, CompleteDump rt svr file ∧ (fkKdbSaveIo io rt svr).2.dbFile = some file

/-- How many of the bytes in a stream `fflush` and `fclose` lose. -/
def SaveIo.lost (io : SaveIo) : Nat :=
  match io.fflush with
  | .done => 0
  | .fails behind false => behind
  | .fails behind true =>
      match io.fclose with
      | .done => 0
      | .fails last _ => min behind last

/-- When all calls before them and the rename succeed, `fflush` and `fclose` lose nothing. -/
def SaveIo.Settles (io : SaveIo) (rt : FkRt) (svr : FkSvr) : Prop :=
  ∀ file, CompleteDump rt svr file → io.fopen = true →
    (∀ offset < file.length, io.takes offset = true) → io.rename = true → io.lost = 0 ∨ file = []

/-! ## Writes that fail -/

section Shortened

variable {A B : Type} {takes : Nat → Bool}

/-- The call does the same as on a stream that takes everything, unless a byte of it is not
taken; then it gives up. -/
def Shortened (takes : Nat → Bool) (act whole : Act Bytes A) : Prop := ∀ file,
  match whole file with
  | .ok value after => file.length ≤ after.length ∧
      ((∀ offset, file.length ≤ offset → offset < after.length → takes offset = true) →
        act file = .ok value after) ∧
      ((∃ offset, file.length ≤ offset ∧ offset < after.length ∧ takes offset = false) →
        ∃ left, act file = .err left)
  | .err _ => ∃ left, act file = .err left
  | .fault => False

namespace Shortened

theorem pure (value : A) : Shortened takes (Pure.pure value) (Pure.pure value) := by
  intro file
  refine ⟨Nat.le_refl _, fun _ => rfl, ?_⟩
  rintro ⟨offset, low, high, _⟩
  exact absurd high (Nat.not_lt.mpr low)

theorem fail : Shortened takes (Act.fail : Act Bytes A) Act.fail := fun file => ⟨file, rfl⟩

theorem bind {act whole : Act Bytes A} {next whole' : A → Act Bytes B}
    (first : Shortened takes act whole)
    (later : ∀ value, Shortened takes (next value) (whole' value)) :
    Shortened takes (act >>= next) (whole >>= whole') := by
  intro file
  have head := first file
  cases called : whole file with
  | err left =>
      rw [called] at head
      obtain ⟨stopped, failed⟩ := head
      rw [Act.bind_err called]
      exact ⟨stopped, Act.bind_err failed⟩
  | fault =>
      rw [called] at head
      exact head.elim
  | ok value middle =>
      rw [called] at head
      obtain ⟨longer, taken, untaken⟩ := head
      rw [Act.bind_ok called]
      have tail := later value middle
      -- Either the first part is taken, and the second one decides, or it gives up.
      by_cases all : ∀ offset, file.length ≤ offset → offset < middle.length → takes offset = true
      · have went := taken all
        cases again : whole' value middle with
        | err left =>
            rw [again] at tail
            obtain ⟨stopped, failed⟩ := tail
            exact ⟨stopped, (Act.bind_ok went).trans failed⟩
        | fault =>
            rw [again] at tail
            exact tail
        | ok result after =>
            rw [again] at tail
            obtain ⟨longer', taken', untaken'⟩ := tail
            refine ⟨Nat.le_trans longer longer', fun every => ?_, ?_⟩
            · exact (Act.bind_ok went).trans
                (taken' fun offset low high => every offset (Nat.le_trans longer low) high)
            · rintro ⟨offset, low, high, refused⟩
              have behind : middle.length ≤ offset := by
                by_contra before
                rw [all offset low (Nat.not_le.mp before)] at refused
                cases refused
              obtain ⟨stopped, failed⟩ := untaken' ⟨offset, behind, high, refused⟩
              exact ⟨stopped, (Act.bind_ok went).trans failed⟩
      · obtain ⟨offset, low, high, refused⟩ : ∃ offset, file.length ≤ offset ∧
            offset < middle.length ∧ takes offset = false := by
          by_contra none
          refine all fun offset low high => ?_
          by_contra refused
          exact none ⟨offset, low, high, Bool.eq_false_iff.mpr refused⟩
        obtain ⟨stopped, failed⟩ := untaken ⟨offset, low, high, refused⟩
        have gaveUp : ∃ left, (act >>= next) file = .err left := ⟨stopped, Act.bind_err failed⟩
        cases again : whole' value middle with
        | err left => exact gaveUp
        | fault =>
            rw [again] at tail
            exact tail
        | ok result after =>
            rw [again] at tail
            refine ⟨Nat.le_trans longer tail.1, fun every => ?_, fun _ => gaveUp⟩
            rw [every offset low (Nat.lt_of_lt_of_le high tail.1)] at refused
            cases refused

theorem forEach {I : Type} {body whole : I → Act Bytes Unit} (items : List I)
    (each : ∀ item, Shortened takes (body item) (whole item)) :
    Shortened takes (Act.forEach body items) (Act.forEach whole items) := by
  induction items with
  | nil => exact pure ()
  | cons item rest ih => exact (each item).bind fun _ => ih

/-- A write whose failure is noticed. -/
theorem write {bytes : Bytes} {rest : Nat → Act Bytes Unit} (one : rest 1 = Pure.pure ())
    (zero : bytes.length ≠ 0 → rest 0 = Act.fail) (same : Shortened takes (rest 0) (rest 0)) :
    Shortened takes (fwriteIo takes bytes >>= rest) (fwrite bytes >>= rest) := by
  intro file
  by_cases empty : bytes.length = 0
  · have nothing := List.length_eq_zero_iff.mp empty
    subst nothing
    have whole : fwrite [] file = .ok 0 file := by
      rw [fwrite, List.append_nil]
      rfl
    have part : fwriteIo takes [] file = .ok 0 file := rfl
    rw [Act.bind_ok whole, Act.bind_ok part]
    exact same file
  · have whole : fwrite bytes file = .ok 1 (file ++ bytes) := by rw [fwrite, if_neg empty]
    rw [Act.bind_ok whole, one]
    change _ ≤ (file ++ bytes).length ∧ _
    rw [List.length_append]
    refine ⟨Nat.le_add_right _ _, fun all => ?_, ?_⟩
    · have part : fwriteIo takes bytes file = .ok 1 (file ++ bytes) := by
        rw [fwriteIo, if_neg empty, if_pos]
        exact fun offset inside => all _ (Nat.le_add_right _ _) (by omega)
      rw [Act.bind_ok part, one]
      rfl
    · rintro ⟨offset, low, high, refused⟩
      have part : fwriteIo takes bytes file = .ok 0 file := by
        rw [fwriteIo, if_neg empty, if_neg]
        intro all
        have taken := all (offset - file.length) (by omega)
        rw [Nat.add_sub_cancel' low, refused] at taken
        cases taken
      rw [Act.bind_ok part, zero empty]
      exact ⟨file, rfl⟩

theorem writeAll (bytes : Bytes) :
    Shortened takes (writeAllOn (fwriteIo takes) bytes) (writeAllOn fwrite bytes) :=
  write rfl (fun _ => rfl) fail

theorem size (len : Nat) :
    Shortened takes (dumpSizeOn (fwriteIo takes) len) (dumpSizeOn fwrite len) := writeAll _

theorem key (key : Bytes) :
    Shortened takes (dumpKeyOn (fwriteIo takes) key) (dumpKeyOn fwrite key) :=
  (size _).bind fun _ => writeAll key

theorem value (value : Bytes) :
    Shortened takes (dumpValueOn (fwriteIo takes) value) (dumpValueOn fwrite value) := by
  refine (size _).bind fun _ => write ?_ (fun some => ?_) ?_
  · exact if_neg fun both => nomatch both.2
  · exact if_pos ⟨Nat.pos_of_ne_zero some, rfl⟩
  · split
    · exact fail
    · exact pure ()

theorem strElt (key value : Bytes) :
    Shortened takes (fkKdbDumpStrEltOn (fwriteIo takes) key value)
      (fkKdbDumpStrEltOn fwrite key value) :=
  (Shortened.key key).bind fun _ => Shortened.value value

theorem elts (rt : FkRt) (elts : List (Bytes × FkItem)) :
    Shortened takes (dumpEltsOn (fwriteIo takes) rt elts) (dumpEltsOn fwrite rt elts) := by
  induction elts generalizing rt with
  | nil => exact pure ()
  | cons elt rest ih =>
      obtain ⟨key, value⟩ := elt
      refine (writeAll _).bind fun _ => ?_
      cases value with
      | str bytes => exact (strElt key bytes).bind fun _ => ih .ok
      | list nodes =>
          refine Shortened.bind ?_ fun _ => ih .ok
          exact (Shortened.key key).bind fun _ => (size _).bind fun _ =>
            forEach nodes Shortened.value
      | dict fields =>
          refine Shortened.bind ?_ fun _ => ih .ok
          exact (Shortened.key key).bind fun _ => (size _).bind fun _ => forEach _ fun selt =>
            strElt selt.1 selt.2
      | num number =>
          refine Shortened.bind ?_ fun _ => ih .ok
          exact (Shortened.key key).bind fun _ => (size 8).bind fun _ => writeAll _
      | sklist =>
          dsimp only
          split
          · exact fail
          · exact ih rt

theorem dump (rt : FkRt) (svr : FkSvr) (isexp : Bool) (idx : Nat) :
    Shortened takes (fkKdbDumpOn (fwriteIo takes) rt svr isexp idx)
      (fkKdbDumpOn fwrite rt svr isexp idx) :=
  (writeAll _).bind fun _ => (writeAll _).bind fun _ => (size _).bind fun _ => elts rt _

theorem dbs (rt : FkRt) (svr : FkSvr) :
    Shortened takes (dumpDbsOn (fwriteIo takes) rt svr) (dumpDbs rt svr) :=
  forEach _ fun idx => (dump rt svr false idx).bind fun _ => dump rt svr true idx

end Shortened

end Shortened

/-! ## The last calls -/

section Save

variable {io : SaveIo} {rt : FkRt} {svr : FkSvr} {file : Bytes}

/-- What is in the file after `fflush` and `fclose`. -/
theorem flushed (io : SaveIo) (file : Bytes) :
    (((FkStream.mk [] file).flush io.fflush).flush io.fclose).written = file.take
    (file.length - io.lost) := by
  unfold SaveIo.lost
  cases io.fflush with
  | done =>
      dsimp only [FkStream.flush]
      rw [Nat.sub_zero, List.take_length, List.nil_append]
      cases io.fclose with
      | done => exact List.append_nil _
      | fails last kept => exact (congrArg (file ++ ·) List.take_nil).trans (List.append_nil _)
  | fails behind kept =>
      cases kept with
      | false =>
          dsimp only [FkStream.flush]
          rw [List.nil_append, if_neg (by decide)]
          cases io.fclose with
          | done => exact List.append_nil _
          | fails last kept => exact (congrArg (_ ++ ·) List.take_nil).trans (List.append_nil _)
      | true =>
          dsimp only [FkStream.flush]
          rw [List.nil_append, if_pos rfl]
          cases io.fclose with
          | done =>
              dsimp only
              rw [List.take_append_drop, Nat.sub_zero, List.take_length]
          | fails last kept =>
              dsimp only
              rw [List.length_drop, ← List.take_add]
              congr 1
              omega

theorem take_eq_self_iff {count : Nat} : file.take (file.length - count) = file ↔ count = 0 ∨
    file = [] := by
  rw [List.take_eq_self_iff]
  have empty : file = [] ↔ file.length = 0 := List.length_eq_zero_iff.symm
  rw [empty]
  omega

/-- A save that gives up leaves the dump file alone. -/
theorem savesSafely_of_err (gaveUp : fkKdbSaveIo io rt svr = (.err, svr)) :
    SavesSafely io rt svr where
  intact := .inl (by rw [gaveUp])
  complete := by
    rw [gaveUp]
    nofun

/-- What a save does that opens the file. -/
theorem fkKdbSaveIo_opened (opened : io.fopen = true) : fkKdbSaveIo io rt svr =
    match dumpDbsOn (fwriteIo io.takes) rt svr [] with
    | .ok _ file =>
        if io.rename = false then (.err, svr)
        else (.ok, { svr with dbFile := some (file.take (file.length - io.lost)) })
    | _ => (.err, svr) := by
  unfold fkKdbSaveIo
  rw [if_neg (by rw [opened]; decide)]
  cases dumpDbsOn (fwriteIo io.takes) rt svr [] with
  | ok value file =>
      dsimp only
      rw [flushed]
  | err => rfl
  | fault => rfl

/-- A failed save leaves the previous dump intact, and a save that returns `FK_SVR_OK` has
written all, exactly when `fflush` and `fclose` lose nothing after calls that succeed. -/
theorem fkKdbSaveIo_safe_iff (io : SaveIo) (rt : FkRt) (svr : FkSvr) : SavesSafely io rt svr ↔
    io.Settles rt svr := by
  cases opened : io.fopen with
  | false =>
      refine iff_of_true (savesSafely_of_err (if_pos opened)) fun file _ wrong => ?_
      rw [opened] at wrong
      cases wrong
  | true =>
      have saved := @fkKdbSaveIo_opened io rt svr opened
      have shortened := @Shortened.dbs io.takes rt svr []
      cases whole : dumpDbs rt svr [] with
      | fault =>
          rw [whole] at shortened
          exact shortened.elim
      | err left =>
          rw [whole] at shortened
          obtain ⟨stopped, failed⟩ := shortened
          rw [failed] at saved
          refine iff_of_true (savesSafely_of_err saved) fun file complete => ?_
          cases whole.symm.trans complete
      | ok value file =>
          rw [whole] at shortened
          obtain ⟨_, taken, untaken⟩ := shortened
          by_cases all : ∀ offset < file.length, io.takes offset = true
          · rw [taken fun offset _ inside => all offset inside] at saved
            cases renamed : io.rename with
            | false =>
                dsimp only at saved
                rw [if_pos renamed] at saved
                refine iff_of_true (savesSafely_of_err saved) fun other _ _ _ wrong => ?_
                rw [renamed] at wrong
                cases wrong
            | true =>
                dsimp only at saved
                rw [if_neg (by rw [renamed]; decide)] at saved
                have only : ∀ other, CompleteDump rt svr other → other = file := by
                  intro other complete
                  cases whole.symm.trans complete
                  rfl
                have settles : io.Settles rt svr ↔ io.lost = 0 ∨ file = [] := by
                  refine ⟨fun settles => settles file whole opened all renamed,
                    fun whole other complete _ _ _ => ?_⟩
                  rw [only other complete]
                  exact whole
                rw [settles, ← take_eq_self_iff]
                refine ⟨fun safe => ?_, fun kept => ?_⟩
                · obtain ⟨other, complete, same⟩ := safe.complete (by rw [saved])
                  rw [saved, only other complete] at same
                  exact Option.some.inj same
                · rw [kept] at saved
                  have done : ∃ other, CompleteDump rt svr other ∧
                      (fkKdbSaveIo io rt svr).2.dbFile = some other :=
                    ⟨file, whole, by rw [saved]⟩
                  exact ⟨.inr done, fun _ => done⟩
          · have refused : ∃ offset, ([] : Bytes).length ≤ offset ∧ offset < file.length ∧
                io.takes offset = false := by
              by_contra none
              refine all fun offset inside => ?_
              by_contra untaken
              exact none ⟨offset, Nat.zero_le _, inside, Bool.eq_false_iff.mpr untaken⟩
            obtain ⟨stopped, failed⟩ := untaken refused
            rw [failed] at saved
            refine iff_of_true (savesSafely_of_err saved) fun other complete _ every => ?_
            cases whole.symm.trans complete
            exact absurd every all

/-- Where nothing fails, this is `fkKdbSave`. -/
theorem fkKdbSaveIo_quiet (fsync : Bool) (rt : FkRt) (svr : FkSvr) :
    fkKdbSaveIo ⟨true, fun _ => true, .done, fsync, .done, true⟩ rt svr = fkKdbSave rt svr := by
  rw [fkKdbSaveIo_opened rfl, fkKdbSave]
  have shortened := @Shortened.dbs (fun _ => true) rt svr []
  cases whole : dumpDbs rt svr [] with
  | fault =>
      rw [whole] at shortened
      exact shortened.elim
  | err left =>
      rw [whole] at shortened
      obtain ⟨stopped, failed⟩ := shortened
      rw [failed]
  | ok value file =>
      rw [whole] at shortened
      rw [shortened.2.1 fun _ _ _ => rfl]
      change (FkRt.ok, { svr with dbFile := some (file.take (file.length - 0)) }) = _
      rw [Nat.sub_zero, List.take_length]

end Save

/-- The device is full when the buffer is written: `fflush` leaves the last 16 bytes behind,
and they are lost. -/
def fullIo : SaveIo := ⟨true, fun _ => true, .fails 16 false, true, .done, true⟩

/-- One database, which is empty, and an old dump. -/
def emptySvr : FkSvr := { fkSvrInit 1 false (fun _ => 0) (fun _ => 0) with dbFile := some [7] }

/-- The old dump is replaced by half of the new one, and the save returns `FK_SVR_OK`. -/
theorem fkKdbSaveIo_unsafe :
    ∃ file, CompleteDump .ok emptySvr file ∧ file.length = 32 ∧
      (fkKdbSaveIo fullIo .ok emptySvr).1 = .ok ∧ (fkKdbSaveIo fullIo .ok emptySvr).2.dbFile = some
      (file.take 16) ∧ ¬ SavesSafely fullIo .ok emptySvr := by
  have complete : CompleteDump .ok emptySvr (List.replicate 20 0 ++ 1 :: List.replicate 11 0) := rfl
  have half : (fkKdbSaveIo fullIo .ok emptySvr).2.dbFile = some (List.replicate 16 0) :=
    by decide +kernel
  have returned : (fkKdbSaveIo fullIo .ok emptySvr).1 = .ok := by decide +kernel
  refine ⟨_, complete, rfl, returned, half, fun safe => ?_⟩
  obtain ⟨file, whole, kept⟩ := safe.complete returned
  cases complete.symm.trans whole
  rw [half] at kept
  revert kept
  decide

end Freekick
