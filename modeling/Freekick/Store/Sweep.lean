import Freekick.Store.Runs

/-!
# The expiry sweep: `fk_svr_clear_timeout_keys` of `fk_svr.c`

The sweep goes through the databases and samples keys with a deadline.  The loop over
the samples counts with the variable of the loop over the databases, so after a
database with `len` deadlines the sweep goes on at index `len / 5 + 1`.
-/

namespace Freekick

open Lib.Call

/-- The server in the course of a sweep, how often `rand` was called, and the databases
that were sampled so far with the number of samples. -/
structure FkSweep where
  svr : FkSvr
  draws : Nat
  sampled : List (Nat × Nat)

/-- `fk_handle_expired_key` is passed two dictionaries; here an index stands for them. -/
def sweepOut (idx : Nat) : FkConnOut := { (fkConnCreate .fake 0).toFkConnOut with dbIdx := idx }

/-- The body of the inner loop.  `none` is an undefined operation. -/
def sampleOne (idx number : Nat) (svr : FkSvr) : Option FkSvr :=
  match fkDictRandom (svr.expdb idx) number with
  | none => none
  | some elt =>
      match fkHandleExpiredKey elt.1 ⟨svr, sweepOut idx⟩ with
      | .ok _ work => some work.svr
      | _ => none

/-- `(int)(0.2 * len)` is a fifth of the number, truncated; a loop up to a negative number
makes no round. -/
def tryTimes (len : Int) : Nat := (len.tdiv 5).toNat

/-- `i++` of the outer loop.  `dbcnt` is a `uint32_t` but `i` is an `int`, and an overflow
of it is undefined. -/
def intSucc (i : Nat) : Option Nat := if i + 1 < 2 ^ 31 then some (i + 1) else none

section Loops

variable (rand : Nat → Nat)

/-- The inner loop with the rounds that are left. -/
def sampleLoop (idx : Nat) : Nat → FkSweep → Option FkSweep
  | 0, sweep => some sweep
  | left + 1, sweep =>
      (sampleOne idx (rand sweep.draws) sweep.svr).bind fun svr =>
        sampleLoop idx left { sweep with svr := svr, draws := sweep.draws + 1 }

/-- The outer loop.  The inner one leaves its bound in `i`.  `none` is an undefined
operation or a lack of fuel. -/
def sweepLoop : Nat → Nat → FkSweep → Option FkSweep
  | 0, _, _ => none
  | fuel + 1, i, sweep =>
      if i < sweep.svr.dbcnt then
        let len := toInt32 (fkDictLen (sweep.svr.expdb i))
        if len = 0 then (intSucc i).bind fun i => sweepLoop fuel i sweep
        else
          (sampleLoop rand i (tryTimes len) sweep).bind fun after =>
            (intSucc (tryTimes len)).bind fun i' =>
              sweepLoop fuel i' { after with sampled := after.sampled ++ [(i, tryTimes len)] }
      else some sweep

def fkSvrClearTimeoutKeys (fuel : Nat) (svr : FkSvr) : Option FkSweep :=
  sweepLoop rand fuel 0 ⟨svr, 0, []⟩

end Loops

/-! ## What a sweep should do -/

/-- Every key is as it was, or its deadline was over and it is gone. -/
def Expires (svr final : FkSvr) : Prop :=
  ∀ idx key,
    ((final.spaces idx).values key = (svr.spaces idx).values key ∧
      (final.spaces idx).deadlines key = (svr.spaces idx).deadlines key) ∨
    ((∃ deadline reading, (svr.spaces idx).deadlines key = some deadline ∧ svr.readings ≤ reading ∧
        reading < final.readings ∧ deadline < svr.clock reading) ∧
      (final.spaces idx).values key = none ∧ (final.spaces idx).deadlines key = none)

/-- The databases with a deadline and the samples that each of them should get. -/
def FkSvr.timedOut (svr : FkSvr) : List (Nat × Nat) :=
  ((List.range svr.dbcnt).filter fun idx => fkDictLen (svr.expdb idx) ≠ 0).map fun idx =>
    (idx, fkDictLen (svr.expdb idx) / 5)

/-- Every database with a deadline was sampled once, and only expired keys are gone. -/
structure Swept (svr : FkSvr) (final : FkSweep) : Prop where
  sampled : final.sampled.Perm svr.timedOut
  expires : Expires svr final.svr
  frame : final.svr.frame = svr.frame

/-! ## The way of the sweep -/

/-- The databases that a sweep stops at, from an index on. -/
inductive Route (len : Nat → Nat) (bound : Nat) : Nat → List Nat → Prop
  | done {first : Nat} (empty : ∀ idx, first ≤ idx → idx < bound → len idx = 0) :
    Route len bound first []
  | stop {first idx : Nat} {order : List Nat} (low : first ≤ idx) (inside : idx < bound)
      (timed : len idx ≠ 0) (skipped : ∀ other, first ≤ other → other < idx → len other = 0)
      (later : Route len bound (len idx / 5 + 1) order) :
      Route len bound first (idx :: order)

/-- The way from database 0 ends and meets every database with a deadline, and the
databases can be counted with an `int`. -/
structure FkSvr.Sweepable (svr : FkSvr) : Prop where
  counted : svr.dbcnt < 2 ^ 31
  small : ∀ idx < svr.dbcnt, fkDictLen (svr.expdb idx) < 2 ^ 31
  route : ∃ order, Route (fun idx => fkDictLen (svr.expdb idx)) svr.dbcnt 0 order ∧
    ∀ idx < svr.dbcnt, fkDictLen (svr.expdb idx) ≠ 0 → idx ∈ order

namespace Route

variable {len : Nat → Nat} {bound first idx : Nat} {order other : List Nat}

theorem inside (route : Route len bound first order) (member : idx ∈ order) :
    idx < bound ∧ len idx ≠ 0 := by
  induction route with
  | done empty => cases member
  | stop low here timed skipped later ih =>
      rcases List.mem_cons.mp member with rfl | deeper
      · exact ⟨here, timed⟩
      · exact ih deeper

/-- An empty database is passed over. -/
theorem skip (empty : len first = 0) (route : Route len bound (first + 1) order) :
    Route len bound first order := by
  cases route with
  | done others =>
      refine .done fun idx low inside => ?_
      rcases Nat.eq_or_lt_of_le low with rfl | above
      · exact empty
      · exact others idx above inside
  | stop low inside timed skipped later =>
      refine .stop (Nat.le_of_succ_le low) inside timed (fun idx from' below => ?_) later
      rcases Nat.eq_or_lt_of_le from' with rfl | above
      · exact empty
      · exact skipped idx above below

theorem unique (route : Route len bound first order) (again : Route len bound first other) :
    order = other := by
  induction route generalizing other with
  | done empty =>
      cases again with
      | done => rfl
      | stop low here timed => exact absurd (empty _ low here) timed
  | @stop first idx order low here timed skipped later ih =>
      cases again with
      | done empty => exact absurd (empty idx low here) timed
      | @stop _ second _ low' here' timed' skipped' later' =>
          have same : idx = second := by
            rcases Nat.lt_trichotomy idx second with before | same | after
            · exact absurd (skipped' idx low before) timed
            · exact same
            · exact absurd (skipped second low' after) timed'
          subst same
          rw [ih later']

theorem later_of_mem (route : Route len bound first order) (member : idx ∈ order) :
    ∃ rest, rest.length < order.length ∧ Route len bound (len idx / 5 + 1) rest := by
  induction route with
  | done empty => cases member
  | @stop first here order low inside timed skipped later ih =>
      rcases List.mem_cons.mp member with rfl | deeper
      · exact ⟨order, Nat.lt_succ_self _, later⟩
      · obtain ⟨rest, shorter, found⟩ := ih deeper
        exact ⟨rest, Nat.lt_succ_of_lt shorter, found⟩

/-- A way that comes back to a database never ends. -/
theorem nodup (route : Route len bound first order) : order.Nodup := by
  induction route with
  | done empty => exact List.nodup_nil
  | @stop first here order low inside timed skipped later ih =>
      refine List.nodup_cons.mpr ⟨fun again => ?_, ih⟩
      obtain ⟨rest, shorter, found⟩ := later.later_of_mem again
      rw [later.unique found] at shorter
      exact Nat.lt_irrefl _ shorter

end Route

/-! ## Samples -/

theorem Expires.refl (svr : FkSvr) : Expires svr svr := fun _ _ => .inl ⟨rfl, rfl⟩

theorem Expires.trans {svr middle final : FkSvr} (first : Expires svr middle)
    (later : Expires middle final) (clock : middle.clock = svr.clock)
    (before : svr.readings ≤ middle.readings) (after : middle.readings ≤ final.readings) :
    Expires svr final := by
  intro idx key
  rcases first idx key with ⟨value, limit⟩ |
      ⟨⟨deadline, reading, held, start, stop, overdue⟩, value, limit⟩ <;>
    rcases later idx key with ⟨value', limit'⟩ |
        ⟨⟨deadline', reading', held', start', stop', overdue'⟩, value', limit'⟩
  · exact .inl ⟨value'.trans value, limit'.trans limit⟩
  · refine .inr ⟨⟨deadline', reading', limit ▸ held', Nat.le_trans before start', stop', ?_⟩,
      value', limit'⟩
    rw [← clock]
    exact overdue'
  · exact .inr ⟨⟨deadline, reading, held, start, Nat.lt_of_lt_of_le stop after, overdue⟩,
      value'.trans value, limit'.trans limit⟩
  · rw [limit] at held'
    cases held'

/-- What sampling a database does. -/
structure Samples (good : Bytes → Prop) (idx tries : Nat) (svr after : FkSvr) : Prop where
  ok : SvrOk good after
  timed : after.Timed
  frame : after.frame = svr.frame
  other : ∀ wanted ≠ idx, after.expdb wanted = svr.expdb wanted
  least : fkDictLen (svr.expdb idx) ≤ fkDictLen (after.expdb idx) + tries
  most : fkDictLen (after.expdb idx) ≤ fkDictLen (svr.expdb idx)
  readings : svr.readings ≤ after.readings
  expires : Expires svr after

namespace Samples

variable {good : Bytes → Prop} {idx tries more : Nat} {svr middle after : FkSvr}

theorem clock (samples : Samples good idx tries svr after) : after.clock = svr.clock :=
  congrArg (fun parts => parts.2.2.2.2.1) samples.frame

theorem dbcnt (samples : Samples good idx tries svr after) : after.dbcnt = svr.dbcnt :=
  congrArg (fun parts => parts.1) samples.frame

theorem refl (ok : SvrOk good svr) (timed : svr.Timed) : Samples good idx 0 svr svr where
  ok := ok
  timed := timed
  frame := rfl
  other := fun _ _ => rfl
  least := Nat.le_refl _
  most := Nat.le_refl _
  readings := Nat.le_refl _
  expires := .refl svr

theorem trans (first : Samples good idx tries svr middle)
    (later : Samples good idx more middle after) :
    Samples good idx (tries + more) svr after where
  ok := later.ok
  timed := later.timed
  frame := later.frame.trans first.frame
  other := fun wanted apart => (later.other wanted apart).trans (first.other wanted apart)
  least := by
    have := first.least
    have := later.least
    omega
  most := Nat.le_trans later.most first.most
  readings := Nat.le_trans first.readings later.readings
  expires := first.expires.trans later.expires first.clock first.readings later.readings

end Samples

theorem fkDictRemove_len (dct : FkDb) (key : Bytes) :
    fkDictLen dct ≤ fkDictLen (fkDictRemove dbDictEop dct key).2 + 1 ∧
      fkDictLen (fkDictRemove dbDictEop dct key).2 ≤ fkDictLen dct := by
  unfold fkDictRemove fkDictLen
  split
  · exact ⟨Nat.le_succ _, Nat.le_refl _⟩
  · dsimp only
    omega

section Sample

variable {good : Bytes → Prop} {idx number : Nat} {svr after : FkSvr} {rand : Nat → Nat}

theorem expires_removeKey (ok : SvrOk good svr) (timed : svr.Timed) {key : Bytes} {deadline : Int}
    (limit : (svr.spaces idx).deadlines key = some deadline)
    (overdue : deadline < svr.clock svr.readings) :
    Expires svr (svr.tick.removeKey idx key) := by
  have spaces := (removeKey_spaces (show SvrOk good svr.tick from ok)
    (show svr.tick.Timed from timed) idx key).2
  intro wanted other
  rw [spaces]
  change _ = (svr.tick.spaces wanted).values other ∧
    _ = (svr.tick.spaces wanted).deadlines other ∨ _
  by_cases same : wanted = idx
  · subst same
    rw [Function.update_self]
    by_cases here : other = key
    · subst here
      refine .inr ⟨⟨deadline, svr.readings, limit, Nat.le_refl _, Nat.lt_succ_self _, overdue⟩, ?_,
        ?_⟩
      · exact Function.update_self ..
      · exact Function.update_self ..
    · exact .inl ⟨Function.update_of_ne here .., Function.update_of_ne here ..⟩
  · rw [Function.update_of_ne same]
    exact .inl ⟨rfl, rfl⟩

theorem handleExpiredKey_samples (ok : SvrOk good svr) (timed : svr.Timed) (idx : Nat)
    (key : Bytes) :
    ∃ expired work, fkHandleExpiredKey key ⟨svr, sweepOut idx⟩ = .ok expired work ∧
      Samples good idx 1 svr work.svr := by
  have tickOk : SvrOk good svr.tick := ok
  have tickTimed : svr.tick.Timed := timed
  have ticked : Expires svr svr.tick := fun _ _ => .inl ⟨rfl, rfl⟩
  cases held : fkDictGet dbDictEop (svr.expdb idx) key with
  | none =>
      have called := @fkHandleExpiredKey_untimed svr (sweepOut idx) key held
      exact ⟨_, _, called, ok, timed, rfl, fun _ _ => rfl, Nat.le_succ _, Nat.le_refl _,
        Nat.le_refl _, .refl svr⟩
  | some item =>
      obtain ⟨deadline, rfl⟩ := timed idx key item held
      have called := @fkHandleExpiredKey_timed svr (sweepOut idx) key deadline held
      by_cases overdue : deadline < svr.clock svr.readings
      · rw [if_pos overdue] at called
        have limit : (svr.spaces idx).deadlines key = some deadline :=
          congrArg (fun item => item.bind FkItem.number?) held
        have lens := fkDictRemove_len (svr.expdb idx) key
        have expdb : (svr.tick.removeKey idx key).expdb idx =
            (fkDictRemove dbDictEop (svr.expdb idx) key).2 :=
          FkSvr.expdb_setExpdb_same ..
        rw [← expdb] at lens
        refine ⟨_, _, called, tickOk.removeKey idx key,
          (removeKey_spaces tickOk tickTimed idx key).1, rfl, ?_, lens.1,
          lens.2, Nat.le_succ _, expires_removeKey ok timed limit overdue⟩
        exact fun wanted apart => FkSvr.expdb_setExpdb_other _ _ apart
      · rw [if_neg overdue] at called
        exact ⟨_, _, called, tickOk, tickTimed, rfl, fun _ _ => rfl, Nat.le_succ _, Nat.le_refl _,
          Nat.le_succ _, ticked⟩

theorem sampleOne_samples (ok : SvrOk good svr) (timed : svr.Timed)
    (called : sampleOne idx number svr = some after) :
    Samples good idx 1 svr after := by
  unfold sampleOne at called
  split at called
  · cases called
  · next elt picked =>
      obtain ⟨expired, work, handled, samples⟩ := handleExpiredKey_samples ok timed idx elt.1
      rw [handled] at called
      cases called
      exact samples

theorem sampleOne_some (ok : SvrOk good svr) (timed : svr.Timed)
    (positive : fkDictLen (svr.expdb idx) ≠ 0) (small : fkDictLen (svr.expdb idx) < 2 ^ 31)
    (number : Nat) : ∃ after, sampleOne idx number svr = some after := by
  obtain ⟨elt, picked⟩ := fkDictRandom_some (ok.expdbWf idx) positive small number
  obtain ⟨expired, work, handled, _⟩ := handleExpiredKey_samples ok timed idx elt.1
  refine ⟨work.svr, ?_⟩
  unfold sampleOne
  rw [picked]
  dsimp only
  rw [handled]

theorem sampleLoop_samples {tries : Nat} {sweep final : FkSweep} (ok : SvrOk good sweep.svr)
    (timed : sweep.svr.Timed) (called : sampleLoop rand idx tries sweep = some final) :
    Samples good idx tries sweep.svr final.svr ∧ final.sampled = sweep.sampled := by
  induction tries generalizing sweep with
  | zero =>
      cases called
      exact ⟨.refl ok timed, rfl⟩
  | succ tries ih =>
      obtain ⟨middle, first, later⟩ := Option.bind_eq_some_iff.mp called
      have one := sampleOne_samples ok timed first
      obtain ⟨rest, sampled⟩ := ih (show SvrOk good middle from one.ok) one.timed later
      rw [Nat.add_comm]
      exact ⟨one.trans rest, sampled⟩

/-- A dictionary with enough deadlines is never empty when it is sampled. -/
theorem sampleLoop_some {tries : Nat} {sweep : FkSweep} (ok : SvrOk good sweep.svr)
    (timed : sweep.svr.Timed) (enough : tries ≤ fkDictLen (sweep.svr.expdb idx))
    (small : fkDictLen (sweep.svr.expdb idx) < 2 ^ 31) :
    ∃ final, sampleLoop rand idx tries sweep = some final := by
  induction tries generalizing sweep with
  | zero => exact ⟨sweep, rfl⟩
  | succ tries ih =>
      obtain ⟨middle, first⟩ := sampleOne_some ok timed (by omega) small (rand sweep.draws)
      have one := sampleOne_samples ok timed first
      have least := one.least
      have most := one.most
      obtain ⟨final, later⟩ := @ih ⟨middle, sweep.draws + 1, sweep.sampled⟩ one.ok one.timed
        (by dsimp only; omega) (by dsimp only; omega)
      refine ⟨final, ?_⟩
      rw [sampleLoop, first]
      exact later

end Sample

/-! ## The outer loop -/

theorem tryTimes_eq (len : Int) : tryTimes len = (len / 5).toNat := by
  unfold tryTimes
  rcases Int.le_total 0 len with positive | negative
  · rw [Int.tdiv_eq_ediv_of_nonneg positive]
  · obtain ⟨count, rfl⟩ : ∃ count : Int, len = -count := ⟨-len, (Int.neg_neg len).symm⟩
    rw [Int.neg_tdiv, Int.tdiv_eq_ediv_of_nonneg (by omega)]
    omega

theorem tryTimes_small {len : Nat} (small : len < 2 ^ 31) : tryTimes (toInt32 len) = len / 5 := by
  rw [toInt32_natCast small]
  rfl

/-- A conversion to `int` never makes the number larger. -/
theorem toInt32_le (len : Nat) : toInt32 len ≤ len := by
  unfold toInt32
  rw [Int.bmod_def]
  split <;> omega

theorem tryTimes_le (len : Nat) : tryTimes (toInt32 len) ≤ len / 5 := by
  have most := toInt32_le len
  rw [tryTimes_eq]
  omega

theorem intSucc_some {i : Nat} (fits : i + 1 < 2 ^ 31) : intSucc i = some (i + 1) := if_pos fits

theorem intSucc_eq {i next : Nat} (counted : intSucc i = some next) : i + 1 = next := by
  unfold intSucc at counted
  split at counted <;> cases counted
  rfl

theorem intSucc_lt {i next : Nat} (counted : intSucc i = some next) : next < 2 ^ 31 := by
  unfold intSucc at counted
  split at counted
  · next fits =>
      cases counted
      exact fits
  · cases counted

/-- A fifth of an `int` can be counted on. -/
theorem intSucc_tryTimes (len : Int) :
    intSucc (tryTimes (toInt32 len)) = some (tryTimes (toInt32 len) + 1) := by
  have most := (toInt32_bounds len).2
  refine intSucc_some ?_
  rw [tryTimes_eq]
  omega

theorem small_of_tryTimes {len : Nat} (same : tryTimes (toInt32 len) = len / 5) : len < 2 ^ 31 := by
  rw [tryTimes_eq] at same
  unfold toInt32 at same
  rw [Int.bmod_def] at same
  split at same <;> omega

section Loop

variable {good : Bytes → Prop} {rand : Nat → Nat} {len : Nat → Nat} {first fuel : Nat}
  {order : List Nat}

theorem sweepLoop_skip {gap : Nat} {sweep : FkSweep} (counted : sweep.svr.dbcnt < 2 ^ 31)
    (inside : first + gap ≤ sweep.svr.dbcnt)
    (empty : ∀ idx, first ≤ idx → idx < first + gap → fkDictLen (sweep.svr.expdb idx) = 0) :
    sweepLoop rand (fuel + gap) first sweep = sweepLoop rand fuel (first + gap) sweep := by
  induction gap generalizing first with
  | zero => rfl
  | succ gap ih =>
      have here : toInt32 (fkDictLen (sweep.svr.expdb first)) = 0 := by
        rw [empty first (Nat.le_refl _) (by omega)]
        rfl
      have later := @ih (first + 1) (by omega) fun idx low high => empty idx (by omega) (by omega)
      have inside : first < sweep.svr.dbcnt := by omega
      rw [← Nat.add_assoc, sweepLoop, if_pos inside]
      dsimp only
      rw [if_pos here, intSucc_some (by omega), Option.bind_some, later, Nat.add_right_comm]
      rfl

theorem sweepLoop_stop {idx : Nat} {sweep after : FkSweep} (inside : idx < sweep.svr.dbcnt)
    (timed : toInt32 (fkDictLen (sweep.svr.expdb idx)) ≠ 0)
    (sampled : sampleLoop rand idx (tryTimes (toInt32 (fkDictLen (sweep.svr.expdb idx)))) sweep =
      some after) :
    sweepLoop rand (fuel + 1) idx sweep = sweepLoop rand fuel
      (tryTimes (toInt32 (fkDictLen (sweep.svr.expdb idx))) + 1)
      { after with
        sampled := after.sampled ++
          [(idx, tryTimes (toInt32 (fkDictLen (sweep.svr.expdb idx))))] } := by
  rw [sweepLoop, if_pos inside]
  dsimp only
  rw [if_neg timed, sampled, Option.bind_some, intSucc_tryTimes]
  rfl

/-- What a round of the outer loop can be in a sweep that returns. -/
inductive SweepRound (rand : Nat → Nat) (fuel first : Nat) (sweep final : FkSweep) : Prop
  | ended (outside : sweep.svr.dbcnt ≤ first) (same : final = sweep)
  | skipped (inside : first < sweep.svr.dbcnt)
      (zero : toInt32 (fkDictLen (sweep.svr.expdb first)) = 0) (fits : first + 1 < 2 ^ 31)
      (later : sweepLoop rand fuel (first + 1) sweep = some final)
  | stopped {after : FkSweep} (inside : first < sweep.svr.dbcnt)
      (timed : toInt32 (fkDictLen (sweep.svr.expdb first)) ≠ 0)
      (sampled : sampleLoop rand first
        (tryTimes (toInt32 (fkDictLen (sweep.svr.expdb first)))) sweep = some after)
      (later : sweepLoop rand fuel (tryTimes (toInt32 (fkDictLen (sweep.svr.expdb first))) + 1)
        { after with
          sampled := after.sampled ++
            [(first, tryTimes (toInt32 (fkDictLen (sweep.svr.expdb first))))] } = some final)

theorem sweepLoop_cases {sweep final : FkSweep}
    (called : sweepLoop rand (fuel + 1) first sweep = some final) :
    SweepRound rand fuel first sweep final := by
  by_cases inside : first < sweep.svr.dbcnt
  · by_cases zero : toInt32 (fkDictLen (sweep.svr.expdb first)) = 0
    · rw [sweepLoop, if_pos inside] at called
      dsimp only at called
      rw [if_pos zero] at called
      obtain ⟨next, counted, later⟩ := Option.bind_eq_some_iff.mp called
      obtain rfl : first + 1 = next := intSucc_eq counted
      exact .skipped inside zero (intSucc_lt counted) later
    · cases sampled : sampleLoop rand first
        (tryTimes (toInt32 (fkDictLen (sweep.svr.expdb first)))) sweep with
      | none =>
          rw [sweepLoop, if_pos inside] at called
          dsimp only at called
          rw [if_neg zero, sampled] at called
          cases called
      | some after =>
          rw [sweepLoop_stop inside zero sampled] at called
          exact .stopped inside zero sampled called
  · rw [sweepLoop, if_neg inside] at called
    exact .ended (Nat.not_lt.mp inside) (Option.some.inj called).symm

/-- A sweep that returns has left its loop, with an `int` that is no smaller than `dbcnt`. -/
theorem counted_of_sweepLoop {sweep final : FkSweep} (fits : first < 2 ^ 31)
    (called : sweepLoop rand fuel first sweep = some final) : final.svr.dbcnt < 2 ^ 31 := by
  induction fuel generalizing first sweep with
  | zero => cases called
  | succ fuel ih =>
      cases sweepLoop_cases called with
      | ended outside same =>
          rw [same]
          exact Nat.lt_of_le_of_lt outside fits
      | skipped _ _ counted later => exact ih counted later
      | stopped _ _ _ later => exact ih (intSucc_lt (intSucc_tryTimes _)) later

/-- What a sweep keeps, whatever way it takes. -/
structure SweepKeeps (good : Bytes → Prop) (svr final : FkSvr) : Prop where
  ok : SvrOk good final
  timed : final.Timed
  frame : final.frame = svr.frame
  readings : svr.readings ≤ final.readings
  expires : Expires svr final

theorem sweepLoop_keeps {sweep final : FkSweep} (ok : SvrOk good sweep.svr)
    (timed : sweep.svr.Timed) (called : sweepLoop rand fuel first sweep = some final) :
    SweepKeeps good sweep.svr final.svr := by
  induction fuel generalizing first sweep with
  | zero => cases called
  | succ fuel ih =>
      cases sweepLoop_cases called with
      | ended _ same =>
          rw [same]
          exact ⟨ok, timed, rfl, Nat.le_refl _, .refl _⟩
      | skipped _ _ _ later => exact ih ok timed later
      | @stopped after _ _ sampled later =>
          obtain ⟨samples, _⟩ := sampleLoop_samples ok timed sampled
          have kept := @ih _
            { after with
              sampled := after.sampled ++
                [(first, tryTimes (toInt32 (fkDictLen (sweep.svr.expdb first))))] }
            samples.ok samples.timed later
          exact ⟨kept.ok, kept.timed, kept.frame.trans samples.frame,
            Nat.le_trans samples.readings kept.readings,
            samples.expires.trans kept.expires samples.clock samples.readings kept.readings⟩

/-- A sweep that leaves the indices from `first` on to a way takes that way. -/
theorem sweepLoop_of_route {bound : Nat} {sweep : FkSweep} (route : Route len bound first order)
    (nodup : order.Nodup) (ok : SvrOk good sweep.svr) (timed : sweep.svr.Timed)
    (dbcnt : sweep.svr.dbcnt = bound) (counted : bound < 2 ^ 31)
    (small : ∀ idx < bound, len idx < 2 ^ 31)
    (same : ∀ idx, idx ∈ order ∨ len idx = 0 → fkDictLen (sweep.svr.expdb idx) = len idx) :
    ∃ fuel final, sweepLoop rand fuel first sweep = some final ∧
      final.sampled = sweep.sampled ++ order.map (fun idx => (idx, len idx / 5)) := by
  induction route generalizing sweep with
  | @done first empty =>
      refine ⟨1 + (bound - first), sweep, ?_, (List.append_nil _).symm⟩
      by_cases outside : bound ≤ first
      · rw [Nat.sub_eq_zero_of_le outside, sweepLoop,
          if_neg (by rw [dbcnt]; exact Nat.not_lt.mpr outside)]
      · have last : first + (bound - first) = bound := by omega
        rw [sweepLoop_skip (by omega) (by omega), last, sweepLoop,
          if_neg (by rw [dbcnt]; exact Nat.lt_irrefl _)]
        intro idx low high
        have zero := empty idx low (by omega)
        rw [same idx (.inr zero), zero]
  | @stop first idx order low inside here skipped later ih =>
      have current := same idx (.inl (List.mem_cons_self ..))
      have fits := small idx inside
      have tries := tryTimes_small fits
      obtain ⟨apart, nodup⟩ := List.nodup_cons.mp nodup
      obtain ⟨after, sampled⟩ := @sampleLoop_some good idx rand (len idx / 5) sweep ok timed
        (by rw [current]; exact Nat.div_le_self _ _) (by rw [current]; exact fits)
      obtain ⟨samples, kept⟩ := sampleLoop_samples ok timed sampled
      obtain ⟨fuel, final, called, all⟩ := @ih
        { after with sampled := after.sampled ++ [(idx, len idx / 5)] } nodup samples.ok
          samples.timed
        (samples.dbcnt.trans dbcnt) (by
          intro other known
          have different : other ≠ idx := by
            rintro rfl
            exact known.elim apart here
          rw [samples.other other different]
          exact same other (known.imp_left (List.mem_cons_of_mem _)))
      refine ⟨fuel + 1 + (idx - first), final, ?_, ?_⟩
      · have target : first + (idx - first) = idx := by omega
        rw [sweepLoop_skip (by omega) (by omega), target]
        · rw [← tries, ← current] at sampled
          rw [sweepLoop_stop (by omega) _ sampled, current, tries, called]
          rw [current, toInt32_natCast fits]
          omega
        · intro other from' below
          have zero := skipped other from' (by omega)
          rw [same other (.inr zero), zero]
      · rw [all, kept, List.append_assoc]
        rfl

/-- How many deadlines are left: in a database that was sampled some, and in the others all. -/
structure DeadlinesLeft (len : Nat → Nat) (touched : List Nat) (svr : FkSvr) : Prop where
  same : ∀ idx ∉ touched, fkDictLen (svr.expdb idx) = len idx
  left : ∀ idx ∈ touched, fkDictLen (svr.expdb idx) ≠ 0 ∧ fkDictLen (svr.expdb idx) ≤ len idx

theorem DeadlinesLeft.le {touched : List Nat} {svr : FkSvr} (leaves : DeadlinesLeft len touched svr)
    (idx : Nat) :
    fkDictLen (svr.expdb idx) ≤ len idx := by
  by_cases before : idx ∈ touched
  · exact (leaves.left idx before).2
  · exact Nat.le_of_eq (leaves.same idx before)

/-- A database where the loop finds nothing has no deadlines. -/
theorem DeadlinesLeft.zero {touched : List Nat} {svr : FkSvr}
    (leaves : DeadlinesLeft len touched svr) {idx : Nat}
    (fits : len idx < 2 ^ 31) (empty : toInt32 (fkDictLen (svr.expdb idx)) = 0) : len idx = 0 := by
  by_cases before : idx ∈ touched
  · obtain ⟨positive, most⟩ := leaves.left idx before
    rw [toInt32_natCast (by omega)] at empty
    omega
  · rw [leaves.same idx before, toInt32_natCast fits] at empty
    omega

/-- A fifth of the deadlines is looked at, so that some are left. -/
theorem DeadlinesLeft.sampled {touched : List Nat} {svr after : FkSvr} {idx : Nat}
    (leaves : DeadlinesLeft len touched svr) (positive : fkDictLen (svr.expdb idx) ≠ 0)
    (samples : Samples good idx (tryTimes (toInt32 (fkDictLen (svr.expdb idx)))) svr after) :
    DeadlinesLeft len (idx :: touched) after where
  same := by
    intro other apart
    rw [samples.other other (List.ne_of_not_mem_cons apart)]
    exact leaves.same other (List.not_mem_of_not_mem_cons apart)
  left := by
    intro other member
    by_cases here : other = idx
    · subst here
      have least := samples.least
      have few := tryTimes_le (fkDictLen (svr.expdb other))
      exact ⟨by omega, Nat.le_trans samples.most (leaves.le other)⟩
    · rw [samples.other other here]
      exact leaves.left other ((List.mem_cons.mp member).resolve_left here)

/-- A sweep that returns and meets no database twice has taken a way.  `touched` are the
databases that were sampled before. -/
theorem route_of_sweepLoop {bound : Nat} {touched : List Nat} {sweep final : FkSweep}
    (ok : SvrOk good sweep.svr) (timed : sweep.svr.Timed) (dbcnt : sweep.svr.dbcnt = bound)
    (leaves : DeadlinesLeft len touched sweep.svr)
    (called : sweepLoop rand fuel first sweep = some final) :
    ∃ new, final.sampled = sweep.sampled ++ new ∧
      ((new.map Prod.fst).Nodup → (∀ pair ∈ new, pair.1 ∉ touched) →
        (∀ pair ∈ new, pair.2 = tryTimes (toInt32 (len pair.1))) ∧
          ((∀ idx < bound, len idx < 2 ^ 31) → Route len bound first (new.map Prod.fst))) := by
  induction fuel generalizing first sweep touched with
  | zero => cases called
  | succ fuel ih =>
      cases sweepLoop_cases called with
      | ended outside same =>
          refine ⟨[], by rw [same, List.append_nil],
            fun _ _ => ⟨nofun, fun _ => .done fun idx low high => ?_⟩⟩
          omega
      | skipped inside zero _ later =>
          obtain ⟨new, all, route⟩ := ih ok timed dbcnt leaves later
          refine ⟨new, all, fun nodup apart => ⟨(route nodup apart).1, fun small => ?_⟩⟩
          exact ((route nodup apart).2 small).skip (leaves.zero (small first (dbcnt ▸ inside)) zero)
      | @stopped after inside nonzero sampled later =>
          obtain ⟨samples, kept⟩ := sampleLoop_samples ok timed sampled
          have positive : fkDictLen (sweep.svr.expdb first) ≠ 0 := by
            intro empty
            rw [empty] at nonzero
            exact nonzero rfl
          obtain ⟨new, all, route⟩ := @ih _ (first :: touched)
            { after with
              sampled := after.sampled ++
                [(first, tryTimes (toInt32 (fkDictLen (sweep.svr.expdb first))))] }
            samples.ok samples.timed (samples.dbcnt.trans dbcnt)
            (leaves.sampled positive samples) later
          refine ⟨(first, tryTimes (toInt32 (fkDictLen (sweep.svr.expdb first)))) :: new, ?_,
            fun nodup apart => ?_⟩
          · rw [all, kept, List.append_assoc]
            rfl
          · obtain ⟨fresh, others⟩ := List.forall_mem_cons.mp apart
            obtain ⟨once, rest⟩ := List.nodup_cons.mp nodup
            have current : fkDictLen (sweep.svr.expdb first) = len first :=
              leaves.same first fresh
            obtain ⟨tries, further⟩ := route rest fun pair member => by
              have here : pair.1 ∈ new.map Prod.fst := List.mem_map_of_mem member
              refine List.not_mem_cons_of_ne_of_not_mem (fun again => ?_) (others pair member)
              rw [again] at here
              exact once here
            refine ⟨?_, fun small => ?_⟩
            · intro pair member
              rcases List.mem_cons.mp member with here | deeper
              · rw [here, current]
              · exact tries pair deeper
            · have fits := small first (dbcnt ▸ inside)
              have known := further small
              rw [current, tryTimes_small fits] at known
              refine .stop (Nat.le_refl _) (dbcnt ▸ inside) (current ▸ positive) ?_ known
              exact fun other from' below => absurd below (Nat.not_lt.mpr from')

end Loop

/-! ## When the sweep does what it should -/

section Sweep

variable {good : Bytes → Prop} {rand : Nat → Nat} {svr : FkSvr}

theorem FkSvr.mem_timedOut {pair : Nat × Nat} : pair ∈ svr.timedOut ↔
    pair.1 < svr.dbcnt ∧ fkDictLen (svr.expdb pair.1) ≠ 0 ∧
      pair.2 = fkDictLen (svr.expdb pair.1) / 5 := by
  unfold timedOut
  simp only [List.mem_map, List.mem_filter, List.mem_range, decide_eq_true_eq]
  constructor
  · rintro ⟨idx, ⟨inside, timed⟩, rfl⟩
    exact ⟨inside, timed, rfl⟩
  · rintro ⟨inside, timed, count⟩
    exact ⟨pair.1, ⟨inside, timed⟩, Prod.ext rfl count.symm⟩

theorem FkSvr.timedOut_fst : svr.timedOut.map Prod.fst =
    (List.range svr.dbcnt).filter fun idx => fkDictLen (svr.expdb idx) ≠ 0 := by
  rw [timedOut, List.map_map]
  exact List.map_id _

theorem swept_of_sweepable (ok : SvrOk good svr) (timed : svr.Timed) (sweepable : svr.Sweepable) :
    ∃ fuel final, fkSvrClearTimeoutKeys rand fuel svr = some final ∧ Swept svr final := by
  obtain ⟨order, route, covers⟩ := sweepable.route
  obtain ⟨fuel, final, called, sampled⟩ := @sweepLoop_of_route good rand _ 0 order _ ⟨svr, 0, []⟩
    route route.nodup ok timed rfl sweepable.counted sweepable.small (fun _ _ => rfl)
  have keeps := @sweepLoop_keeps good rand 0 fuel ⟨svr, 0, []⟩ final ok timed called
  have perm : order.Perm ((List.range svr.dbcnt).filter fun idx =>
      fkDictLen (svr.expdb idx) ≠ 0) := by
    refine (List.perm_ext_iff_of_nodup route.nodup (List.nodup_range.filter _)).mpr fun idx => ?_
    rw [List.mem_filter, List.mem_range, decide_eq_true_eq]
    exact ⟨route.inside, fun known => covers idx known.1 known.2⟩
  refine ⟨fuel, final, called, ?_, keeps.expires, keeps.frame⟩
  rw [sampled]
  exact perm.map _

theorem sweepable_of_swept (ok : SvrOk good svr) (timed : svr.Timed) {fuel : Nat} {final : FkSweep}
    (called : fkSvrClearTimeoutKeys rand fuel svr = some final) (swept : Swept svr final) :
    svr.Sweepable := by
  obtain ⟨new, all, route⟩ :=
    @route_of_sweepLoop good rand (fun idx => fkDictLen (svr.expdb idx)) 0 fuel svr.dbcnt []
      ⟨svr, 0, []⟩ final ok timed rfl ⟨fun _ _ => rfl, nofun⟩ called
  have sampled : final.sampled = new := all
  rw [← sampled] at route
  have once : (final.sampled.map Prod.fst).Nodup := by
    rw [(swept.sampled.map Prod.fst).nodup_iff, FkSvr.timedOut_fst]
    exact List.nodup_range.filter _
  obtain ⟨tries, route⟩ := route once fun _ _ => List.not_mem_nil
  have small : ∀ idx < svr.dbcnt, fkDictLen (svr.expdb idx) < 2 ^ 31 := by
    intro idx inside
    by_cases empty : fkDictLen (svr.expdb idx) = 0
    · rw [empty]
      decide
    · have member : (idx, fkDictLen (svr.expdb idx) / 5) ∈ final.sampled :=
        swept.sampled.mem_iff.mpr (FkSvr.mem_timedOut.mpr ⟨inside, empty, rfl⟩)
      exact small_of_tryTimes (tries _ member).symm
  have counted : svr.dbcnt < 2 ^ 31 := by
    have same : final.svr.dbcnt = svr.dbcnt := congrArg (fun parts => parts.1) swept.frame
    rw [← same]
    exact counted_of_sweepLoop (by decide) called
  refine ⟨counted, small, _, route small, fun idx inside full => ?_⟩
  have member : (idx, fkDictLen (svr.expdb idx) / 5) ∈ final.sampled :=
    swept.sampled.mem_iff.mpr (FkSvr.mem_timedOut.mpr ⟨inside, full, rfl⟩)
  exact List.mem_map_of_mem member

/-- The sweep returns and samples every database with a deadline once exactly when its way
ends and meets all of them, and no counter runs over. -/
theorem fkSvrClearTimeoutKeys_iff (ok : SvrOk good svr) (timed : svr.Timed) :
    (∃ fuel final, fkSvrClearTimeoutKeys rand fuel svr = some final ∧ Swept svr final) ↔
      svr.Sweepable := by
  constructor
  · rintro ⟨fuel, final, called, swept⟩
    exact sweepable_of_swept ok timed called swept
  · exact swept_of_sweepable ok timed

end Sweep

/-- One key with a deadline in the first of two databases. -/
def sweptRun : FkRun (fun _ => Act.fault) 2 :=
  .of 1024 (fun reading => 5000 * reading) (fun _ => 0)
    [.connect 0, .command 0 [ascii "SETEX", ascii "k", ascii "1", ascii "v"]] (by decide +kernel)
      (by decide +kernel)

theorem fkSvrClearTimeoutKeys_swept :
    ∃ fuel final, fkSvrClearTimeoutKeys (fun _ => 7) fuel sweptRun.final.svr = some final ∧
      Swept sweptRun.final.svr final := by
  have sound := (sweptRun.sound (by decide)).1
  have dbcnt : sweptRun.final.svr.dbcnt = 2 := by decide +kernel
  have first : fkDictLen (sweptRun.final.svr.expdb 0) = 1 := by decide +kernel
  have second : fkDictLen (sweptRun.final.svr.expdb 1) = 0 := by decide +kernel
  have cases : ∀ idx < sweptRun.final.svr.dbcnt, idx = 0 ∨ idx = 1 := by
    rw [dbcnt]
    omega
  refine (fkSvrClearTimeoutKeys_iff sound.ok sound.timed).mpr
    ⟨?_, fun idx inside => ?_, [0], ?_, fun idx inside full => ?_⟩
  · rw [dbcnt]
    decide
  · rcases cases idx inside with rfl | rfl
    · rw [first]
      decide
    · rw [second]
      decide
  · rw [dbcnt]
    refine .stop (Nat.le_refl 0) (by decide) (by rw [first]; decide)
      (fun other _ below => absurd below (Nat.not_lt_zero _)) ?_
    rw [first]
    refine .done fun idx low inside => ?_
    have last : idx = 1 := by omega
    rw [last, second]
  · rcases cases idx inside with rfl | rfl
    · exact List.mem_singleton.mpr rfl
    · exact absurd second full

section Hang

variable {rand : Nat → Nat} {svr : FkSvr}

/-- A few keys with a deadline in database 1: the sweep comes back to it. -/
theorem sweepLoop_hangs (dbcnt : 1 < svr.dbcnt) (some : fkDictLen (svr.expdb 1) ≠ 0)
    (few : fkDictLen (svr.expdb 1) < 5) (fuel draws : Nat) (sampled : List (Nat × Nat)) :
    sweepLoop rand fuel 1 ⟨svr, draws, sampled⟩ = none := by
  induction fuel generalizing sampled with
  | zero => rfl
  | succ fuel ih =>
      have small : fkDictLen (svr.expdb 1) < 2 ^ 31 := by omega
      have none : tryTimes (toInt32 (fkDictLen (svr.expdb 1))) = 0 := by
        rw [tryTimes_small small]
        omega
      have timed : toInt32 (fkDictLen (svr.expdb 1)) ≠ 0 := by
        rw [toInt32_natCast small]
        omega
      have again := @sweepLoop_stop rand fuel 1 ⟨svr, draws, sampled⟩
        ⟨svr, draws, sampled⟩ dbcnt timed
        (congrArg (fun tries => sampleLoop rand 1 tries ⟨svr, draws, sampled⟩) none)
      rw [again, none]
      exact ih _

theorem fkSvrClearTimeoutKeys_second (dbcnt : 1 < svr.dbcnt) (first : fkDictLen (svr.expdb 0) = 0)
    (some : fkDictLen (svr.expdb 1) ≠ 0) (few : fkDictLen (svr.expdb 1) < 5) (fuel : Nat) :
    fkSvrClearTimeoutKeys rand fuel svr = none := by
  cases fuel with
  | zero => rfl
  | succ fuel =>
      have empty : toInt32 (fkDictLen (svr.expdb 0)) = 0 := by
        rw [first]
        rfl
      unfold fkSvrClearTimeoutKeys
      rw [sweepLoop, if_pos (Nat.lt_trans Nat.zero_lt_one dbcnt)]
      dsimp only
      rw [if_pos empty, intSucc_some (by decide), Option.bind_some]
      exact sweepLoop_hangs dbcnt some few fuel 0 []

end Hang

/-- One key with a deadline in the second of two databases. -/
def hangingRun : FkRun (fun _ => Act.fault) 2 :=
  .of 1024 (fun _ => 0) (fun _ => 0)
    [.connect 0, .command 0 [ascii "SELECT", ascii "1"],
      .command 0 [ascii "SETEX", ascii "k", ascii "1", ascii "v"]] (by decide +kernel)
        (by decide +kernel)

/-- The sweep stays at database 1. -/
theorem fkSvrClearTimeoutKeys_hangs :
    ¬ ∃ rand fuel, (fkSvrClearTimeoutKeys rand fuel hangingRun.final.svr).isSome := by
  rintro ⟨rand, fuel, ends⟩
  have dbcnt : hangingRun.final.svr.dbcnt = 2 := by decide +kernel
  have first : fkDictLen (hangingRun.final.svr.expdb 0) = 0 := by decide +kernel
  have second : fkDictLen (hangingRun.final.svr.expdb 1) = 1 := by decide +kernel
  have hangs : fkSvrClearTimeoutKeys rand fuel hangingRun.final.svr = none :=
    fkSvrClearTimeoutKeys_second (by omega) first (by omega) (by omega) fuel
  rw [hangs] at ends
  cases ends

end Freekick
