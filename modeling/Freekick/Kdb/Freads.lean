import Freekick.Kdb.Dump
import Freekick.Store.Space

/-!
# What loading reads, and where to

`fk_kdb_load` with a note of every `fread`: how many bytes it asks for and how many its
destination has.
-/

namespace Freekick

open Lib.Call Lib.Little

/-- A call of `fread`; a variable has to be read as a whole. -/
structure FreadNote where
  asked : Nat
  room : Nat
  whole : Bool
  deriving DecidableEq, Repr

def FreadNote.Fits (note : FreadNote) : Prop :=
  note.asked ≤ note.room ∧ (note.whole = true → note.asked = note.room)

/-- The load with the length of the line buffer, `buf->len`, and the reads so far. -/
structure Loading where
  load : FkLoad
  lineLen : Nat
  freads : List FreadNote

/-- A call of the load. -/
def Loading.within {A : Type} (act : Act FkLoad A) : Act Loading A := fun loading =>
  (act loading.load).within fun load => { loading with load := load }

namespace Freads

def freadTo (whole : Bool) (room asked : Nat) : Act Loading (Option Bytes) := do
  Act.modify fun loading => { loading with freads := loading.freads ++ [⟨asked, room, whole⟩] }
  Loading.within (fread asked)

/-- A read of a variable of that size. -/
def freadVar (size : Nat) : Act Loading (Option Bytes) := freadTo true size size

def fkZlineAlloc (len : Nat) : Act Loading Unit := fun loading =>
  if loading.lineLen < len then
    match fkUtilMinPower len with
    | none => .fault
    | some power => .ok () { loading with lineLen := power }
  else .ok () loading

def freadLine (len : Nat) : Act Loading (Option Bytes) := do
  fkZlineAlloc len
  let room ← Act.read Loading.lineLen
  freadTo false room len

/-- The variable `num` has eight bytes.  After a read of another length the source goes on with a
number that was not read, or with other variables overwritten; the notes end there. -/
def notingOps : LoadOps Loading where
  load := Loading.load
  within := Loading.within
  freadVar := freadVar
  freadLine := freadLine
  freadNum := freadTo true 8
  misread := Act.fail

/-- `fk_zline_create(4096)` and the loop. -/
def fkKdbLoad (svr : FkSvr) (file : Bytes) : Outcome Loading Unit :=
  loadLoopOn notingOps file.length ⟨⟨svr, file⟩, 4096, []⟩

end Freads

/-! ## Where the numbers of a dump are -/

/-- The rest of a dump and the lengths of the numbers before it. -/
structure Scan where
  rest : Bytes
  numbers : List Nat

namespace Scan

/-- Some bytes. -/
def take (size : Nat) : Act Scan Bytes := fun scan =>
  if size = 0 ∨ scan.rest.length < size then .err scan
  else .ok (scan.rest.take size) { scan with rest := scan.rest.drop size }

def size : Act Scan Nat := do
  let bytes ← take 8
  pure (decode bytes)

/-- The length of an argument. -/
def len : Act Scan Nat := do
  let len ← size
  if fkArgHighwat < len then Act.fail else pure len

def key : Act Scan Bytes := do
  let klen ← len
  take klen

/-- A value may be empty. -/
def value : Act Scan Bytes := do
  let vlen ← len
  if vlen = 0 then pure [] else take vlen

def pair : Act Scan (Bytes × Bytes) := do
  let skey ← key
  let svalue ← value
  pure (skey, svalue)

def num : Act Scan Unit := do
  let vlen ← len
  Act.modify fun scan => { scan with numbers := scan.numbers ++ [vlen] }
  if vlen = 8 then
    let _ ← take 8
  else Act.fail

/-- An element: a string, a list, a hash or a number, with its key. -/
def elt : Act Scan Unit := do
  let type ← take 4
  match decode type with
  | 1 => do
      let _ ← key
      let _ ← value
  | 2 => do
      let _ ← key
      let llen ← size
      let _ ← Act.times value llen
  | 3 => do
      let _ ← key
      let dlen ← size
      let _ ← Act.times pair dlen
  | 5 => do
      let _ ← key
      num
  | _ => Act.fail

/-- A dictionary. -/
def dict (dbcnt : Nat) : Act Scan Unit := do
  let idx ← take 4
  if dbcnt ≤ decode idx then Act.fail
  else
    let _ ← take 4
    let cnt ← size
    let _ ← Act.times elt cnt

def dump (dbcnt : Nat) : Nat → Act Scan Unit
  | 0 => pure ()
  | fuel + 1 => do
      let rest ← Act.read Scan.rest
      if rest.isEmpty then pure ()
      else
        dict dbcnt
        dump dbcnt fuel

end Scan

/-- The length words of the numbers in a dump, up to the place where it is not well-formed. -/
def numberLens (dbcnt : Nat) (file : Bytes) : List Nat :=
  match Scan.dump dbcnt file.length ⟨file, []⟩ with
  | .ok _ scan => scan.numbers
  | .err scan => scan.numbers
  | .fault => []

/-! ## The loader and the scan go side by side -/

namespace Freads

def AllFit (loading : Loading) : Prop := ∀ note ∈ loading.freads, note.Fits

/-- The reads fit exactly when the numbers are whole. -/
def Parted (loading : Loading) (scan : Scan) : Prop :=
  AllFit loading ↔ ∀ vlen ∈ scan.numbers, vlen = 8

structure Tracks (dbcnt : Nat) (loading : Loading) (scan : Scan) : Prop where
  file : loading.load.file = scan.rest
  dbcnt : loading.load.svr.dbcnt = dbcnt
  parted : Parted loading scan

section Sides

variable {dbcnt : Nat} {A : Type} {isexp : Bool} {idx : Nat}

/-- The loader does what the scan does. -/
abbrev Beside (dbcnt : Nat) (fact : A → Prop) (left : Act Loading A) (right : Act Scan A) : Prop :=
  Act.Beside (Tracks dbcnt) Parted fact left right

/-- A read with its note: a value is missing when it returns zero. -/
structure Read (asked room : Nat) (whole : Bool) (before after : Loading) : Prop where
  freads : after.freads = before.freads ++ [⟨asked, room, whole⟩]
  svr : after.load.svr = before.load.svr

theorem freadTo_short (whole : Bool) (room : Nat) {asked : Nat} {loading : Loading}
    (short : asked = 0 ∨ loading.load.file.length < asked) :
    ∃ after, freadTo whole room asked loading = .ok none after ∧
      Read asked room whole loading after ∧
        after.load.file = if asked = 0 then loading.load.file else [] := by
  have called : ∃ load, fread asked loading.load = .ok none load ∧ load.svr = loading.load.svr ∧
      load.file = if asked = 0 then loading.load.file else [] := by
    unfold fread
    by_cases zero : asked = 0
    · exact ⟨loading.load, if_pos zero, rfl, (if_pos zero).symm⟩
    · rw [if_neg zero, if_neg zero]
      exact ⟨_, if_pos (short.resolve_left zero), rfl, rfl⟩
  obtain ⟨load, called, svr, same⟩ := called
  refine ⟨⟨load, loading.lineLen, loading.freads ++ [⟨asked, room, whole⟩]⟩, ?_, ⟨rfl, svr⟩, same⟩
  change (fread asked loading.load).within _ = _
  rw [called]
  rfl

theorem freadTo_enough (whole : Bool) (room : Nat) {asked : Nat} {loading : Loading}
    (enough : ¬(asked = 0 ∨ loading.load.file.length < asked)) :
    ∃ after, freadTo whole room asked loading = .ok (some (loading.load.file.take asked)) after ∧
      Read asked room whole loading after ∧ after.load.file = loading.load.file.drop asked := by
  obtain ⟨positive, long⟩ := not_or.mp enough
  have called : fread asked loading.load =
      .ok (some (loading.load.file.take asked))
        { loading.load with file := loading.load.file.drop asked } := by
    unfold fread
    rw [if_neg positive, if_neg long]
  refine ⟨⟨{ loading.load with file := loading.load.file.drop asked }, loading.lineLen,
    loading.freads ++ [⟨asked, room, whole⟩]⟩, ?_, ⟨rfl, rfl⟩, rfl⟩
  change (fread asked loading.load).within _ = _
  rw [called]
  rfl

/-- A read that fits changes nothing about the reads that do not. -/
theorem Read.parted {asked room : Nat} {whole : Bool} {before after : Loading} {scan : Scan}
    (read : Read asked room whole before after) (fits : (FreadNote.mk asked room whole).Fits)
    (parted : Parted before scan) : Parted after scan := by
  unfold Parted AllFit
  rw [read.freads, List.forall_mem_append, List.forall_mem_singleton, and_iff_left fits]
  exact parted

theorem Read.tracks {asked room : Nat} {whole : Bool} {before after : Loading} {scan : Scan}
    (read : Read asked room whole before after) (fits : (FreadNote.mk asked room whole).Fits)
    (tracks : Tracks dbcnt before scan) (left : Bytes) (file : after.load.file = left) :
    Tracks dbcnt after { scan with rest := left } :=
  ⟨file, (congrArg FkSvr.dbcnt read.svr).trans tracks.dbcnt, read.parted fits tracks.parted⟩

theorem must_freadTo_beside {whole : Bool} {room asked : Nat}
    (fits : (FreadNote.mk asked room whole).Fits) :
    Beside dbcnt (fun _ => True) (must (freadTo whole room asked)) (Scan.take asked) := by
  intro loading scan tracks
  by_cases short : asked = 0 ∨ loading.load.file.length < asked
  · obtain ⟨after, called, read, _⟩ := freadTo_short whole room short
    exact .inr ⟨after, scan, Act.bind_ok called, if_pos (tracks.file ▸ short),
      read.parted fits tracks.parted⟩
  · obtain ⟨after, called, read, file⟩ := freadTo_enough whole room short
    refine .inl ⟨_, after, { scan with rest := loading.load.file.drop asked }, Act.bind_ok called,
      ?_, trivial, read.tracks fits tracks _ file⟩
    rw [tracks.file]
    exact if_neg (tracks.file ▸ short)

/-- A variable that is read whole. -/
theorem freadVar_beside (size : Nat) :
    Beside dbcnt (fun _ => True) (must (freadVar size)) (Scan.take size) :=
  must_freadTo_beside ⟨Nat.le_refl size, fun _ => rfl⟩

theorem restoreSize_beside : Beside dbcnt (fun _ => True) (restoreSizeOn notingOps) Scan.size :=
  (freadVar_beside 8).bind fun _ _ => .pure trivial

theorem fail_beside {fact : A → Prop} : Beside dbcnt fact Act.fail Act.fail :=
  Act.Beside.fail fun _ _ tracks => tracks.parted

theorem restoreLen_beside : Beside dbcnt (· ≤ fkArgHighwat) (restoreLenOn notingOps) Scan.len := by
  refine restoreSize_beside.bind fun len _ => ?_
  by_cases long : fkArgHighwat < len
  · rw [if_pos long, if_pos long]
    exact fail_beside
  · rw [if_neg long, if_neg long]
    exact .pure (Nat.not_lt.mp long)

/-- The line is long enough for what is read into it. -/
theorem freadLine_apply {len : Nat} (short : len ≤ fkArgHighwat) (loading : Loading) :
    ∃ room, len ≤ room ∧ freadLine len loading = freadTo false room len
      { loading with lineLen := room } := by
  by_cases grows : loading.lineLen < len
  · obtain ⟨power, known⟩ :=
      fkUtilMinPower_isSome (show len < 2 ^ 30 by unfold fkArgHighwat at short; omega)
    have line : fkZlineAlloc len loading = .ok () { loading with lineLen := power } := by
      unfold fkZlineAlloc
      rw [if_pos grows, known]
    exact ⟨power, Nat.le_of_lt (fkUtilMinPower_gt known), Act.bind_ok line⟩
  · have line : fkZlineAlloc len loading = .ok () loading := if_neg grows
    exact ⟨loading.lineLen, Nat.not_lt.mp grows, Act.bind_ok line⟩

/-- What is read into the line goes side by side with a read of the scan. -/
theorem line_beside {act : Act Loading A} {other : Act Scan A} {fact : A → Prop} {len : Nat}
    {next : Option Bytes → Act Loading A} (short : len ≤ fkArgHighwat)
    (reads : act = freadLine len >>= next)
    (each : ∀ room, len ≤ room → Beside dbcnt fact (freadTo false room len >>= next) other) :
    Beside dbcnt fact act other := by
  intro loading scan tracks
  obtain ⟨room, enough, line⟩ := freadLine_apply short loading
  have moved : act loading = (freadTo false room len >>= next)
      { loading with lineLen := room } := by
    rw [reads]
    change Act.andThen _ _ _ = Act.andThen _ _ _
    unfold Act.andThen
    rw [line]
  rw [moved]
  exact each room enough { loading with lineLen := room } scan
    ⟨tracks.file, tracks.dbcnt, tracks.parted⟩

theorem restoreKey_beside : Beside dbcnt (fun _ => True) (restoreKeyOn notingOps) Scan.key := by
  refine restoreLen_beside.bind fun klen short => line_beside short rfl fun room enough => ?_
  exact must_freadTo_beside ⟨enough, nofun⟩

theorem restoreValue_beside :
    Beside dbcnt (fun _ => True) (restoreValueOn notingOps) Scan.value := by
  refine restoreLen_beside.bind fun vlen bounded => line_beside bounded rfl fun room enough => ?_
  have fits : (FreadNote.mk vlen room false).Fits := ⟨enough, nofun⟩
  intro loading scan tracks
  by_cases short : vlen = 0 ∨ loading.load.file.length < vlen
  · obtain ⟨after, called, read, same⟩ := freadTo_short false room short
    rw [Act.bind_ok called]
    by_cases zero : vlen = 0
    · refine .inl ⟨[], after, scan, ?_, ?_, trivial,
        read.tracks fits tracks scan.rest ((same.trans (if_pos zero)).trans tracks.file)⟩
      · dsimp only
        rw [if_neg (by omega)]
        rfl
      · rw [if_pos zero]
        rfl
    · refine .inr ⟨after, scan, ?_, ?_, read.parted fits tracks.parted⟩
      · dsimp only
        rw [if_pos (Nat.pos_of_ne_zero zero)]
        rfl
      · rw [if_neg zero]
        exact if_pos (tracks.file ▸ short)
  · obtain ⟨after, called, read, file⟩ := freadTo_enough false room short
    refine .inl ⟨_, after, { scan with rest := loading.load.file.drop vlen }, Act.bind_ok called,
      ?_, trivial, read.tracks fits tracks _ file⟩
    rw [if_neg (not_or.mp short).1, tracks.file]
    exact if_neg (tracks.file ▸ short)

theorem within_beside {fact : Unit → Prop} {change : FkLoad → FkLoad}
    (file : ∀ load, (change load).file = load.file)
    (svr : ∀ load, (change load).svr.dbcnt = load.svr.dbcnt) (holds : fact ()) :
    Beside dbcnt fact (Loading.within (Act.modify change)) (pure ()) := by
  intro loading scan tracks
  exact .inl ⟨(), _, scan, rfl, rfl, holds, (file _).trans tracks.file, (svr _).trans tracks.dbcnt,
    tracks.parted⟩

theorem restoreAdd_beside (key : Bytes) (value : FkItem) :
    Beside dbcnt (fun _ => True) (Loading.within (restoreAdd isexp idx key value)) (pure ()) := by
  refine within_beside (fun _ => rfl) (fun load => ?_) trivial
  cases isexp <;> rfl

/-- A number of eight bytes is there or not. -/
theorem storeNum_whole (key : Bytes) (num : Option Bytes) :
    storeNumOn notingOps isexp idx key 8 num = (must (pure num) >>= fun bytes =>
      Loading.within (restoreAdd isexp idx key (.num (decodeNum bytes)))) := by
  cases num <;> rfl

theorem storeNum_other {vlen : Nat} (key : Bytes) (other : vlen ≠ 8) (num : Option Bytes) :
    storeNumOn notingOps isexp idx key vlen num = Act.fail := by
  cases num with
  | none => exact ite_self _
  | some bytes => exact if_neg other

/-- A number is as long in the scan as what is read into the variable. -/
theorem num_beside (key : Bytes) (vlen : Nat) :
    Beside dbcnt (fun _ => True) (freadTo true 8 vlen >>= storeNumOn notingOps isexp idx key vlen)
      (Act.modify (fun scan => { scan with numbers := scan.numbers ++ [vlen] }) >>= fun _ =>
        if vlen = 8 then Scan.take 8 >>= fun _ => pure () else Act.fail) := by
  intro loading scan tracks
  by_cases whole : vlen = 8
  · subst whole
    have noted : Tracks dbcnt loading { scan with numbers := scan.numbers ++ [8] } := by
      refine ⟨tracks.file, tracks.dbcnt, ?_⟩
      unfold Parted
      rw [List.forall_mem_append, List.forall_mem_singleton, and_iff_left rfl]
      exact tracks.parted
    have sides : Beside dbcnt (fun _ => True)
        (must (freadTo true 8 8) >>= fun bytes =>
          Loading.within (restoreAdd isexp idx key (.num (decodeNum bytes))))
        (Scan.take 8 >>= fun _ => pure ()) :=
      (must_freadTo_beside ⟨le_rfl, fun _ => rfl⟩).bind fun bytes _ =>
        restoreAdd_beside key (.num (decodeNum bytes))
    have same : (freadTo true 8 8 >>= storeNumOn notingOps isexp idx key 8) loading =
        (must (freadTo true 8 8) >>= fun bytes =>
          Loading.within (restoreAdd isexp idx key (.num (decodeNum bytes)))) loading := by
      unfold must
      rw [Act.bind_assoc]
      refine congrFun (congrArg (fun next => freadTo true 8 8 >>= next) (funext fun num => ?_))
        loading
      exact storeNum_whole key num
    rw [same]
    exact sides loading _ noted
  · have read : ∃ num after, freadTo true 8 vlen loading = .ok num after ∧
        Read vlen 8 true loading after := by
      by_cases short : vlen = 0 ∨ loading.load.file.length < vlen
      · obtain ⟨after, called, read, _⟩ := freadTo_short true 8 short
        exact ⟨none, after, called, read⟩
      · obtain ⟨after, called, read, _⟩ := freadTo_enough true 8 short
        exact ⟨_, after, called, read⟩
    obtain ⟨num, after, called, read⟩ := read
    refine .inr ⟨after, { scan with numbers := scan.numbers ++ [vlen] }, ?_, ?_, ?_⟩
    · rw [Act.bind_ok called, storeNum_other key whole]
      rfl
    · change (if vlen = 8 then Scan.take 8 >>= fun _ => pure () else Act.fail : Act Scan Unit) _ = _
      rw [if_neg whole]
      rfl
    · unfold Parted AllFit
      rw [read.freads, List.forall_mem_append, List.forall_mem_append, List.forall_mem_singleton,
        List.forall_mem_singleton]
      exact iff_of_false (fun fits => whole (fits.2.2 rfl)) fun eights => whole eights.2

theorem fkKdbRestoreNumElt_beside : Beside dbcnt (fun _ => True)
    (fkKdbRestoreNumEltOn notingOps isexp idx) (Scan.key >>= fun _ => Scan.num) :=
  restoreKey_beside.bind fun key _ => restoreLen_beside.bind fun vlen _ => num_beside key vlen

theorem restorePair_beside : Beside dbcnt (fun _ => True) (restorePairOn notingOps) Scan.pair :=
  restoreKey_beside.bind fun _ _ => restoreValue_beside.bind fun _ _ => .pure trivial

theorem restoreElt_beside :
    Beside dbcnt (fun _ => True) (restoreEltOn notingOps isexp idx) Scan.elt := by
  refine (freadVar_beside 4).bind fun type _ => ?_
  generalize decode type = tag
  match tag with
  | 1 =>
      exact restoreKey_beside.bind fun key _ => restoreValue_beside.bind fun value _ =>
        restoreAdd_beside key _
  | 2 =>
      exact restoreKey_beside.bind fun key _ => restoreSize_beside.bind fun llen _ =>
        (restoreValue_beside.times llen).bind fun nodes _ => restoreAdd_beside key _
  | 3 =>
      exact restoreKey_beside.bind fun key _ => restoreSize_beside.bind fun dlen _ =>
        (restorePair_beside.times dlen).bind fun selts _ => restoreAdd_beside key _
  | 5 => exact fkKdbRestoreNumElt_beside
  | 0 => exact fail_beside
  | 4 => exact fail_beside
  | _ + 6 => exact fail_beside

/-- The read of `isexp` is not checked, but nothing can be read after it falls short. -/
theorem isexp_beside {next : Option Bytes → Nat → Act Loading Unit} {other : Nat → Act Scan Unit}
    (each : ∀ isexp cnt, Beside dbcnt (fun _ => True) (next isexp cnt) (other cnt)) :
    Beside dbcnt (fun _ => True) (freadVar 4 >>= fun isexp => restoreSizeOn notingOps >>=
      next isexp) (Scan.take 4 >>= fun _ => Scan.size >>= other) := by
  intro loading scan tracks
  have fits : (FreadNote.mk 4 4 true).Fits := ⟨le_rfl, fun _ => rfl⟩
  by_cases short : 4 = 0 ∨ loading.load.file.length < 4
  · obtain ⟨middle, called, read, empty⟩ := freadTo_short true 4 short
    have stopped : Scan.take 4 scan = .err scan := if_pos (tracks.file ▸ short)
    obtain ⟨after, missing, again, _⟩ :=
      freadTo_short true 8 (show 8 = 0 ∨ middle.load.file.length < 8 by simp [empty])
    have failed : restoreSizeOn notingOps middle = .err after := Act.bind_err (Act.bind_ok missing)
    refine .inr ⟨after, scan, (Act.bind_ok called).trans (Act.bind_err failed),
      Act.bind_err stopped, ?_⟩
    exact again.parted ⟨le_rfl, fun _ => rfl⟩ (read.parted fits tracks.parted)
  · obtain ⟨after, called, read, file⟩ := freadTo_enough true 4 short
    have taken : Scan.take 4 scan = .ok (scan.rest.take 4) { scan with rest := scan.rest.drop 4 } :=
      if_neg (tracks.file ▸ short)
    have tracked := read.tracks fits tracks _ (file.trans (congrArg (List.drop 4) tracks.file))
    have heads : freadVar 4 loading = .ok (some (loading.load.file.take 4)) after := called
    rw [Act.bind_ok heads, Act.bind_ok taken]
    exact (restoreSize_beside.bind fun cnt _ => each _ cnt) after _ tracked

theorem fkKdbRestore_beside :
    Beside dbcnt (fun _ => True) (fkKdbRestoreOn notingOps) (Scan.dict dbcnt) := by
  refine (freadVar_beside 4).bind fun idx _ => ?_
  intro loading scan tracks
  have count : (notingOps.load loading).svr.dbcnt = dbcnt := tracks.dbcnt
  rw [Act.read_bind, count]
  by_cases beyond : dbcnt ≤ decode idx
  · rw [if_pos beyond, if_pos beyond]
    exact fail_beside loading scan tracks
  · rw [if_neg beyond, if_neg beyond]
    exact isexp_beside (fun isexp cnt => (restoreElt_beside.times cnt).bind fun _ _ =>
      .pure trivial) loading scan tracks

theorem loadLoop_beside (fuel : Nat) :
    Beside dbcnt (fun _ => True) (loadLoopOn notingOps fuel) (Scan.dump dbcnt fuel) := by
  induction fuel with
  | zero => exact .pure trivial
  | succ fuel ih =>
      intro loading scan tracks
      have file : (notingOps.load loading).file = scan.rest := tracks.file
      rw [loadLoopOn, Scan.dump, Act.read_bind, Act.read_bind, file]
      by_cases empty : scan.rest.isEmpty
      · rw [if_pos empty, if_pos empty]
        exact Act.Beside.pure trivial loading scan tracks
      · rw [if_neg empty, if_neg empty]
        exact (fkKdbRestore_beside.bind fun _ _ => ih) loading scan tracks

end Sides

/-! ## The loader without its notes -/

section Plain

variable {A B : Type} {fact : A → Prop} {further : B → Prop} {noted : Act Loading A}
  {plain : Act FkLoad A} {isexp : Bool} {idx : Nat}

/-- The call does what the other one does, or it stops after a read that does not fit. -/
def Traces (fact : A → Prop) (noted : Act Loading A) (plain : Act FkLoad A) : Prop := ∀ loading,
  (∃ value after, noted loading = .ok value after ∧ plain loading.load = .ok value after.load ∧
    fact value) ∨ ∃ after, noted loading = .err after ∧
    (plain loading.load = .err after.load ∨ ¬AllFit after)

theorem Traces.pure {value : A} (holds : fact value) :
    Traces fact (Pure.pure value) (Pure.pure value) :=
  fun loading => .inl ⟨value, loading, rfl, rfl, holds⟩

theorem Traces.fail : Traces fact Act.fail Act.fail := fun loading => .inr ⟨loading, rfl, .inl rfl⟩

theorem Traces.bind {next : A → Act Loading B} {later : A → Act FkLoad B}
    (heads : Traces fact noted plain)
    (tails : ∀ value, fact value → Traces further (next value) (later value)) :
    Traces further (noted >>= next) (plain >>= later) := by
  intro loading
  rcases heads loading with ⟨value, after, head, other, holds⟩ | ⟨after, head, other | misfit⟩
  · rw [Act.bind_ok head, Act.bind_ok other]
    exact tails value holds after
  · exact .inr ⟨after, Act.bind_err head, .inl (Act.bind_err other)⟩
  · exact .inr ⟨after, Act.bind_err head, .inr misfit⟩

theorem Traces.times (each : Traces fact noted plain) (count : Nat) :
    Traces (fun _ => True) (noted.times count) (plain.times count) := by
  induction count with
  | zero => exact .pure trivial
  | succ count ih => exact each.bind fun _ _ => ih.bind fun _ _ => .pure trivial

theorem freadTo_traces (whole : Bool) (room asked : Nat) :
    Traces (fun _ => True) (freadTo whole room asked) (fread asked) := by
  intro loading
  have notes : freadTo whole room asked loading = (fread asked loading.load).within fun load =>
      { loading with load := load, freads := loading.freads ++ [⟨asked, room, whole⟩] } := rfl
  have returns : ∃ value after, fread asked loading.load = .ok value after := by
    unfold fread
    split
    · exact ⟨_, _, rfl⟩
    · split <;> exact ⟨_, _, rfl⟩
  obtain ⟨value, after, called⟩ := returns
  rw [notes, called]
  exact .inl ⟨value, _, rfl, rfl, trivial⟩

theorem must_traces {act : Act Loading (Option Bytes)} {size : Nat}
    (reads : Traces (fun _ => True) act (fread size)) :
    Traces (fun _ => True) (must act) (freadAll size) := by
  refine reads.bind fun value _ => ?_
  cases value with
  | none => exact .fail
  | some bytes => exact .pure trivial

theorem freadLine_traces {len : Nat} (short : len ≤ fkArgHighwat) :
    Traces (fun _ => True) (freadLine len) (fread len) := by
  intro loading
  obtain ⟨room, _, line⟩ := freadLine_apply short loading
  rw [line]
  exact freadTo_traces false room len { loading with lineLen := room }

theorem restoreSize_traces : Traces (fun _ => True) (restoreSizeOn notingOps) restoreSize :=
  (must_traces (freadTo_traces true 8 8)).bind fun _ _ => .pure trivial

theorem restoreLen_traces : Traces (· ≤ fkArgHighwat) (restoreLenOn notingOps) restoreLen := by
  refine restoreSize_traces.bind fun len _ => ?_
  by_cases long : fkArgHighwat < len
  · rw [if_pos long, if_pos long]
    exact .fail
  · rw [if_neg long, if_neg long]
    exact .pure (Nat.not_lt.mp long)

theorem restoreKey_traces : Traces (fun _ => True) (restoreKeyOn notingOps) restoreKey :=
  restoreLen_traces.bind fun _ short => must_traces (freadLine_traces short)

theorem restoreValue_traces : Traces (fun _ => True) (restoreValueOn notingOps) restoreValue := by
  refine restoreLen_traces.bind fun vlen short => (freadLine_traces short).bind fun value _ => ?_
  cases value with
  | some bytes => exact .pure trivial
  | none =>
      by_cases positive : 0 < vlen
      · rw [if_pos positive, if_pos positive]
        exact .fail
      · rw [if_neg positive, if_neg positive]
        exact .pure trivial

theorem restoreAdd_traces (key : Bytes) (value : FkItem) :
    Traces (fun _ => True) (Loading.within (restoreAdd isexp idx key value))
      (restoreAdd isexp idx key value) :=
  fun _ => .inl ⟨(), _, rfl, rfl, trivial⟩

theorem fkKdbRestoreNumElt_traces : Traces (fun _ => True)
    (fkKdbRestoreNumEltOn notingOps isexp idx) (fkKdbRestoreNumElt isexp idx) := by
  refine restoreKey_traces.bind fun key _ => restoreLen_traces.bind fun vlen _ => ?_
  by_cases whole : vlen = 8
  · subst whole
    refine (freadTo_traces true 8 8).bind fun num _ => ?_
    cases num with
    | none => exact .fail
    | some bytes => exact restoreAdd_traces key _
  · intro loading
    have stops : ∃ num after, freadTo true 8 vlen loading = .ok num after ∧ ¬AllFit after := by
      by_cases short : vlen = 0 ∨ loading.load.file.length < vlen
      · obtain ⟨after, called, read, _⟩ := freadTo_short true 8 short
        refine ⟨none, after, called, fun fits => whole ?_⟩
        exact (fits ⟨vlen, 8, true⟩ (by simp [read.freads])).2 rfl
      · obtain ⟨after, called, read, _⟩ := freadTo_enough true 8 short
        refine ⟨_, after, called, fun fits => whole ?_⟩
        exact (fits ⟨vlen, 8, true⟩ (by simp [read.freads])).2 rfl
    obtain ⟨num, after, called, misfit⟩ := stops
    refine .inr ⟨after, (Act.bind_ok called).trans ?_, .inr misfit⟩
    rw [storeNum_other key whole]
    rfl

theorem restorePair_traces : Traces (fun _ => True) (restorePairOn notingOps) restorePair :=
  restoreKey_traces.bind fun _ _ => restoreValue_traces.bind fun _ _ => .pure trivial

theorem restoreElt_traces :
    Traces (fun _ => True) (restoreEltOn notingOps isexp idx) (restoreElt isexp idx) := by
  refine (must_traces (freadTo_traces true 4 4)).bind fun type _ => ?_
  generalize decode type = tag
  match tag with
  | 1 =>
      exact restoreKey_traces.bind fun key _ => restoreValue_traces.bind fun value _ =>
        restoreAdd_traces key _
  | 2 =>
      exact restoreKey_traces.bind fun key _ => restoreSize_traces.bind fun llen _ =>
        (restoreValue_traces.times llen).bind fun nodes _ => restoreAdd_traces key _
  | 3 =>
      exact restoreKey_traces.bind fun key _ => restoreSize_traces.bind fun dlen _ =>
        (restorePair_traces.times dlen).bind fun selts _ => restoreAdd_traces key _
  | 5 => exact fkKdbRestoreNumElt_traces
  | 0 => exact .fail
  | 4 => exact .fail
  | _ + 6 => exact .fail

theorem fkKdbRestore_traces : Traces (fun _ => True) (fkKdbRestoreOn notingOps) fkKdbRestore := by
  refine (must_traces (freadTo_traces true 4 4)).bind fun idx _ => ?_
  intro loading
  have noted : (notingOps.load loading).svr.dbcnt = loading.load.svr.dbcnt := rfl
  have plain : (plainOps.load loading.load).svr.dbcnt = loading.load.svr.dbcnt := rfl
  rw [Act.read_bind, Act.read_bind, noted, plain]
  by_cases beyond : loading.load.svr.dbcnt ≤ decode idx
  · rw [if_pos beyond, if_pos beyond]
    exact Traces.fail loading
  · rw [if_neg beyond, if_neg beyond]
    refine ((freadTo_traces true 4 4).bind fun isexp _ => restoreSize_traces.bind fun cnt _ => ?_)
      loading
    exact (restoreElt_traces.times cnt).bind fun _ _ => .pure trivial

theorem loadLoop_traces (fuel : Nat) :
    Traces (fun _ => True) (loadLoopOn notingOps fuel) (loadLoop fuel) := by
  induction fuel with
  | zero => exact .pure trivial
  | succ fuel ih =>
      intro loading
      have noted : (notingOps.load loading).file = loading.load.file := rfl
      rw [loadLoopOn, loadLoop_succ, Act.read_bind, Act.read_bind, noted]
      by_cases empty : loading.load.file.isEmpty
      · rw [if_pos empty, if_pos empty]
        exact Traces.pure trivial loading
      · rw [if_neg empty, if_neg empty]
        exact (fkKdbRestore_traces.bind fun _ _ => ih) loading

end Plain

/-! ## All reads of a load -/

/-- The notes of a load. -/
def loadNotes (svr : FkSvr) (file : Bytes) : Option (List FreadNote) :=
  match fkKdbLoad svr file with
  | .ok _ loading => some loading.freads
  | .err loading => some loading.freads
  | .fault => none

/-- Every read of a load fits its destination exactly when the numbers that it comes to are eight
bytes long. -/
theorem fkKdbLoad_fits_iff (svr : FkSvr) (file : Bytes) :
    (∃ notes, loadNotes svr file = some notes ∧ ∀ note ∈ notes, note.Fits) ↔
      ∀ vlen ∈ numberLens svr.dbcnt file, vlen = 8 := by
  have start : Tracks svr.dbcnt ⟨⟨svr, file⟩, 4096, []⟩ ⟨file, []⟩ :=
    ⟨rfl, rfl, iff_of_true nofun nofun⟩
  unfold loadNotes fkKdbLoad numberLens
  rcases loadLoop_beside file.length _ _ start with ⟨_, after, scan, loaded, scanned, _, tracks⟩ |
      ⟨after, scan, loaded, scanned, parted⟩
  · rw [loaded, scanned]
    refine Iff.trans ?_ tracks.parted
    exact ⟨fun ⟨notes, same, fits⟩ => by
      rwa [AllFit, Option.some.inj same], fun fits => ⟨_, rfl, fits⟩⟩
  · rw [loaded, scanned]
    refine Iff.trans ?_ parted
    exact ⟨fun ⟨notes, same, fits⟩ => by
      rwa [AllFit, Option.some.inj same], fun fits => ⟨_, rfl, fits⟩⟩

/-- One element, a number under the key `k` with a length word of sixteen. -/
def longNumber : Bytes :=
  encode 4 0 ++ encode 4 0 ++ encode 8 1 ++ encode 4 5 ++ encode 8 1 ++ [107] ++ encode 8 16 ++
    List.replicate 16 0

/-- Sixteen bytes are read over a variable of eight. -/
theorem fkKdbLoad_overruns :
    ¬∃ notes, loadNotes (fkSvrInit 1 false (fun _ => 0) (fun _ => 0)) longNumber = some notes ∧
    ∀ note ∈ notes, note.Fits := by
  have noted : (loadNotes (fkSvrInit 1 false (fun _ => 0) (fun _ => 0)) longNumber).map
      (fun notes =>
        notes.any fun note => note.room < note.asked) = some true := by decide +kernel
  rintro ⟨notes, kept, fits⟩
  rw [kept, Option.map_some, Option.some_inj, List.any_eq_true] at noted
  obtain ⟨note, member, large⟩ := noted
  exact absurd (fits note member).1 (Nat.not_le.mpr (of_decide_eq_true large))

/-- A load whose reads fit is the load of the server. -/
theorem fkKdbLoad_plain {svr : FkSvr} {file : Bytes}
    (whole : ∀ vlen ∈ numberLens svr.dbcnt file, vlen = 8) :
    ∃ loading, (fkKdbLoad svr file = .ok () loading ∧
      Freekick.fkKdbLoad svr file = .ok () loading.load) ∨
      (fkKdbLoad svr file = .err loading ∧ Freekick.fkKdbLoad svr file = .err loading.load) := by
  obtain ⟨notes, kept, fits⟩ := (fkKdbLoad_fits_iff svr file).mpr whole
  rcases loadLoop_traces file.length ⟨⟨svr, file⟩, 4096, []⟩ with ⟨value, after, loaded, plain, _⟩ |
      ⟨after, loaded, plain | misfit⟩
  · exact ⟨after, .inl ⟨loaded, plain⟩⟩
  · exact ⟨after, .inr ⟨loaded, plain⟩⟩
  · unfold loadNotes fkKdbLoad at kept
    rw [loaded] at kept
    obtain rfl := Option.some.inj kept
    exact absurd fits misfit

end Freads

end Freekick
