import Freekick.Store.Lasting

/-!
# Keys with a deadline

A key in the expiry dictionary should be in the database, too.  Expiry, the sweep and the
flushes remove a key from both dictionaries, but `DEL` does not look at the second one.
-/

namespace Freekick

open Lib.Call Lib.Steps

/-- Every key with a deadline has a value. -/
def Keyspace.Tied (space : Keyspace) : Prop :=
  ∀ key, (space.deadlines key).isSome → (space.values key).isSome

/-- Every key of an expiry dictionary is a key of its database. -/
def FkSvr.Tied (svr : FkSvr) : Prop := ∀ idx key,
  (fkDictGet dbDictEop (svr.expdb idx) key).isSome → (fkDictGet dbDictEop (svr.db idx) key).isSome

/-- The keys that a `DEL` names. -/
def Cmd.deletes : Cmd → List Bytes
  | .del keys => keys
  | _ => []

/-- A `DEL` names no key with a deadline. -/
def Spares (sys : FkSystem) : Moment → Prop
  | .serve (.command client args) =>
      ∀ out, sys.conns client = some out → ∀ key ∈ (cmdOf args).deletes,
      fkDictGet dbDictEop (sys.svr.expdb out.dbIdx) key = none
  | _ => True

instance (sys : FkSystem) (moment : Moment) : Decidable (Spares sys moment) :=
  match moment with
  | .serve (.command client args) =>
      inferInstanceAs (Decidable (∀ out ∈ sys.conns client, ∀ key ∈ (cmdOf args).deletes,
        fkDictGet dbDictEop (sys.svr.expdb out.dbIdx) key = none))
  | .serve (.connect _) => isTrue trivial
  | .serve (.sent _ _) => isTrue trivial
  | .serve (.close _) => isTrue trivial
  | .sweep _ _ => isTrue trivial

/-! ## What a command does to the two dictionaries -/

namespace Keyspace.Tied

variable {space : Keyspace} {clock : Nat → Int}

theorem empty : Keyspace.empty.Tied := nofun

theorem put (tied : space.Tied) (key : Bytes) (value : Value) : (space.put key value).Tied := by
  intro other limit
  by_cases same : other = key
  · rw [same]
    change (Function.update space.values key _ key).isSome
    rw [Function.update_self]
    rfl
  · change (Function.update space.values key _ other).isSome
    rw [Function.update_of_ne same]
    exact tied other limit

theorem write (tied : space.Tied) (key : Bytes) (item : Option Value) :
    (space.write key item).Tied := by
  cases item with
  | none => exact tied
  | some value => exact tied.put key value

theorem setDeadline (tied : space.Tied) {key : Bytes} (held : (space.values key).isSome)
    (deadline : Int) :
    (space.setDeadline key deadline).Tied := by
  intro other limit
  by_cases same : other = key
  · rw [same]
    exact held
  · change (Function.update space.deadlines key _ other).isSome at limit
    rw [Function.update_of_ne same] at limit
    exact tied other limit

/-- A key that goes from both. -/
theorem remove (tied : space.Tied) (key : Bytes) : (space.remove key).Tied := by
  intro other limit
  by_cases same : other = key
  · rw [same] at limit
    change (Function.update space.deadlines key none key).isSome at limit
    rw [Function.update_self] at limit
    cases limit
  · change (Function.update space.deadlines key none other).isSome at limit
    rw [Function.update_of_ne same] at limit
    change (Function.update space.values key none other).isSome
    rw [Function.update_of_ne same]
    exact tied other limit

theorem putAll (tied : space.Tied) (pairs : List (Bytes × Bytes)) : (space.putAll pairs).Tied := by
  induction pairs generalizing space with
  | nil => exact tied
  | cons pair rest ih => exact ih (tied.put pair.1 _)

theorem look (tied : space.Tied) (key : Bytes) : (space.look clock key).left.Tied := by
  unfold Keyspace.look
  split
  · exact tied
  · split
    · exact tied.remove key
    · exact tied

theorem lookAll (tied : space.Tied) (keys : List Bytes) : (space.lookAll clock keys).left.Tied := by
  induction keys generalizing clock space with
  | nil => exact tied
  | cons key rest ih => exact ih (tied.look key)

/-- Keys that lose their values only. -/
theorem drop_iff (tied : space.Tied) (keys : List Bytes) :
    (space.drop keys).Tied ↔ ∀ key ∈ keys, space.deadlines key = none := by
  refine ⟨fun dropped key named => ?_, fun untimed key limit => ?_⟩
  · by_contra limit
    have held := dropped key (Option.isSome_iff_ne_none.mpr limit)
    change (if key ∈ keys then none else space.values key).isSome at held
    rw [if_pos named] at held
    cases held
  · have kept : key ∉ keys := by
      intro named
      have none : space.deadlines key = none := untimed key named
      change (space.deadlines key).isSome at limit
      rw [none] at limit
      cases limit
    change (if key ∈ keys then none else space.values key).isSome
    rw [if_neg kept]
    exact tied key limit

end Keyspace.Tied

namespace Cmd

variable {dbcnt count : Nat} {clock : Nat → Int} {space : Keyspace} {cmd : Cmd} {answer : Answer}

/-- All other commands keep the deadlines to the keys that exist. -/
theorem run_tied_iff (tied : space.Tied) (ran : cmd.run dbcnt clock space = some answer) :
    answer.space.Tied ↔ ∀ key ∈ cmd.deletes, space.deadlines key = none := by
  have other : cmd.deletes = [] → answer.space.Tied →
      (answer.space.Tied ↔ ∀ key ∈ cmd.deletes, space.deadlines key = none) := by
    intro nothing kept
    rw [nothing]
    exact ⟨fun _ => nofun, fun _ => kept⟩
  cases own : cmd.ownKey with
  | some key =>
      obtain ⟨act, acts⟩ := exists_acts own
      rw [acts.run] at ran
      cases ran
      refine other ?_ (tied.write key _)
      cases cmd <;> first | rfl | cases own
  | none =>
      cases cmd with
      | del keys =>
          cases ran
          exact tied.drop_iff keys
      | set key value => cases ran; exact other rfl (tied.put key _)
      | setex key exp value =>
          cases ran
          refine other rfl ((tied.put key _).setDeadline ?_ _)
          change (Function.update space.values key _ key).isSome
          rw [Function.update_self]
          rfl
      | mset pairs => cases ran; exact other rfl (tied.putAll pairs)
      | mget keys => cases ran; exact other rfl (tied.lookAll keys)
      | get key => cases ran; exact other rfl (tied.look key)
      | flushdb | flushall => cases ran; exact other rfl .empty
      | save | select | refused => cases ran; exact other rfl tied
      | zadd key arity =>
          rw [run] at ran
          split at ran <;> cases ran
          exact other rfl tied
      | setnx | existing | hset | hget | push | pop | llen => cases own

theorem cut_deletes : (cmd.cut count).deletes = cmd.deletes := by
  cases cmd <;> rfl

end Cmd

/-! ## Moments -/

section Moment

variable {fkCmdEval : Handler} {maxWbuf : Nat} {sys next : FkSystem}

theorem FkSvr.tied_iff {svr : FkSvr} (timed : svr.Timed) : svr.Tied ↔
    ∀ idx, (svr.spaces idx).Tied := by
  refine forall_congr' fun idx => forall_congr' fun key => ?_
  rw [timed.holds.deadlines, Option.isSome_map, timed.holds.isSome]

theorem Leaves.tied_iff {svr : FkSvr} {out : FkConnOut} {cmd : Cmd} {answer : Answer} {after : Work}
    (tied : ∀ idx, (svr.spaces idx).Tied) (inside : out.dbIdx < svr.dbcnt)
    (ran : Work.answer ⟨svr, out⟩ svr.spaces cmd = some answer)
    (leaves : Leaves ⟨svr, out⟩ svr.spaces cmd answer after) :
    (∀ idx, (after.svr.spaces idx).Tied) ↔
      ∀ key ∈ cmd.deletes, (svr.spaces out.dbIdx).deadlines key = none := by
  refine Iff.trans ?_ (Cmd.run_tied_iff (tied out.dbIdx) ran)
  rw [leaves.holds.spaces_eq]
  change (∀ idx, (cmd.after svr.dbcnt out.dbIdx svr.spaces answer.space idx).Tied) ↔ _
  refine ⟨fun all => ?_, fun own idx => ?_⟩
  · have here := all out.dbIdx
    rw [Cmd.after_own inside ran] at here
    exact here
  · cases cmd with
    | flushall =>
        change (if idx < svr.dbcnt then Keyspace.empty else svr.spaces idx).Tied
        split
        · exact .empty
        · exact tied idx
    | _ =>
        change (Function.update svr.spaces out.dbIdx answer.space idx).Tied
        by_cases same : idx = out.dbIdx
        · rw [same, Function.update_self]
          exact own
        · rw [Function.update_of_ne same]
          exact tied idx

theorem Commanded.tied_iff {client : Nat} {args : List Bytes}
    (commanded : Commanded fkCmdEval sys client args next)
    (sound : sys.Sound) (tied : ∀ idx, (sys.svr.spaces idx).Tied) :
    (∀ idx, (next.svr.spaces idx).Tied) ↔ Spares sys (.serve (.command client args)) := by
  have told : ∀ {out : FkConnOut}, sys.conns client = some out →
      (Spares sys (.serve (.command client args)) ↔
        ∀ key ∈ (cmdOf args).deletes, (sys.svr.spaces out.dbIdx).deadlines key = none) := by
    intro out connected
    have untimed : ∀ key, fkDictGet dbDictEop (sys.svr.expdb out.dbIdx) key = none ↔
        (sys.svr.spaces out.dbIdx).deadlines key = none := by
      intro key
      rw [sound.timed.holds.deadlines, Option.map_eq_none_iff]
    refine ⟨fun spares key named => (untimed key).mp (spares out connected key named),
      fun spares other again key named => ?_⟩
    obtain rfl := Option.some.inj (connected.symm.trans again)
    exact (untimed key).mpr (spares key named)
  cases commanded with
  | absent gone =>
      refine ⟨fun _ out connected => ?_, fun _ => tied⟩
      rw [gone] at connected
      cases connected
  | @refused out answer part count wbuf after connected ran queued cut leaves =>
      have both := leaves.tied_iff tied (sound.idx client out connected) cut
      rw [Cmd.cut_deletes] at both
      exact both.trans (told connected).symm
  | @done out answer wbuf after connected ran queued leaves =>
      exact (leaves.tied_iff tied (sound.idx client out connected) ran).trans (told connected).symm

theorem FkSystem.moment_tied_iff {moment : Moment} (positive : 0 < sys.svr.dbcnt)
    (admitted : moment.Admitted) (sound : sys.Sound) (tied : sys.svr.Tied)
    (stepped : sys.moment fkCmdEval maxWbuf moment = some next) :
    next.svr.Tied ↔ Spares sys moment := by
  have after := (FkSystem.moment_sound positive admitted sound stepped).1
  have before := (FkSvr.tied_iff sound.timed).mp tied
  refine (FkSvr.tied_iff after.timed).trans ?_
  cases moment with
  | serve event =>
      cases event with
      | command client args =>
          exact (FkSystem.command_commanded admitted sound.ok sound.timed stepped).tied_iff
            sound before
      | connect client =>
          cases stepped
          exact ⟨fun _ => trivial, fun _ => before⟩
      | sent client count =>
          cases stepped
          exact ⟨fun _ => trivial, fun _ => before⟩
      | close client =>
          cases stepped
          exact ⟨fun _ => trivial, fun _ => before⟩
  | sweep rand fuel =>
      obtain ⟨final, called, rfl⟩ := Option.map_eq_some_iff.mp stepped
      have kept := @sweepLoop_keeps ArgName rand 0 fuel ⟨sys.svr, 0, []⟩ final sound.ok
        sound.timed called
      refine ⟨fun _ => trivial, fun _ idx key limit => ?_⟩
      rcases kept.expires idx key with ⟨values, deadlines⟩ | ⟨_, _, deadlines⟩
      · change ((final.svr.spaces idx).deadlines key).isSome at limit
        rw [deadlines] at limit
        change ((final.svr.spaces idx).values key).isSome
        rw [values]
        exact before idx key limit
      · change ((final.svr.spaces idx).deadlines key).isSome at limit
        rw [deadlines] at limit
        cases limit

end Moment

/-! ## Whole runs -/

/-- Every key with a deadline exists in all states of a run exactly when no `DEL` of the
run names a key with a deadline. -/
theorem fkSystem_tied_iff (fkCmdEval : Handler) (maxWbuf : Nat) {dbcnt : Nat} {blogOn : Bool}
    {clock : Nat → Int} {junk : Nat → UInt8} {moments : List Moment} {final : FkSystem}
    (positive : 0 < dbcnt) (admitted : ∀ moment ∈ moments, moment.Admitted)
    (reached : run (FkSystem.moment fkCmdEval maxWbuf) (fkSystemInit dbcnt blogOn clock junk)
      moments = some final) :
    (∀ count sys, run (FkSystem.moment fkCmdEval maxWbuf) (fkSystemInit dbcnt blogOn clock junk)
      (moments.take count) =
        some sys → sys.svr.Tied) ↔
      Throughout (FkSystem.moment fkCmdEval maxWbuf) Spares (fkSystemInit dbcnt blogOn clock junk)
        moments := by
  refine @kept_iff_throughout _ _ _ _ _ _ _ (fun sys => sys.Sound ∧ 0 < sys.svr.dbcnt)
    (fun sys => sys.svr.Tied) _ (fun sys moment next known good tied stepped => ?_)
      ⟨fkSystemInit_sound dbcnt blogOn clock junk, positive⟩ ?_ admitted reached
  · obtain ⟨sound, same⟩ := FkSystem.moment_sound known.2 good known.1 stepped
    exact ⟨⟨sound, Nat.lt_of_lt_of_eq known.2 same.symm⟩,
      FkSystem.moment_tied_iff known.2 good known.1 tied stepped⟩
  · intro idx key limit
    change (fkDictGet dbDictEop fkDictCreate key).isSome at limit
    rw [fkDictCreate, fkDictGet_init dbDictEop_lawful] at limit
    cases limit

/-- A key gets a value with a time limit, the sweep passes, and another key is deleted. -/
def sparingMoments : List Moment :=
  [.serve (.connect 0), .serve (.command 0 [ascii "SETEX", ascii "k", ascii "1", ascii "v"]),
    .sweep (fun _ => 0) 3, .serve (.command 0 [ascii "DEL", ascii "other"])]

theorem fkSystem_tied_iff_sparing :
    ∃ final, run (FkSystem.moment (fun _ => Act.fault) 1024)
      (fkSystemInit 1 false fastClock (fun _ => 0)) sparingMoments =
        some final ∧
      ((∀ count sys, run (FkSystem.moment (fun _ => Act.fault) 1024)
        (fkSystemInit 1 false fastClock (fun _ => 0))
          (sparingMoments.take count) = some sys → sys.svr.Tied) ↔
        Throughout (FkSystem.moment (fun _ => Act.fault) 1024) Spares
          (fkSystemInit 1 false fastClock (fun _ => 0)) sparingMoments) := by
  have ends : (run (FkSystem.moment (fun _ => Act.fault) 1024)
      (fkSystemInit 1 false fastClock (fun _ => 0)) sparingMoments).isSome := by decide +kernel
  obtain ⟨final, reached⟩ := Option.isSome_iff_exists.mp ends
  refine ⟨final, reached, fkSystem_tied_iff (fun _ => Act.fault) 1024 (by decide) ?_ reached⟩
  simp only [sparingMoments, List.forall_mem_cons]
  exact ⟨trivial, (by decide +kernel : Admitted [ascii "SETEX", ascii "k", ascii "1", ascii "v"]),
    trivial, (by decide +kernel : Admitted [ascii "DEL", ascii "other"]), nofun⟩

/-- The key with the time limit is deleted. -/
def deletingMoments : List Moment :=
  [.serve (.connect 0), .serve (.command 0 [ascii "SETEX", ascii "k", ascii "1", ascii "v"]),
    .serve (.command 0 [ascii "DEL", ascii "k"])]

/-- The deadline stays behind. -/
theorem fkSystem_untied_del :
    ∃ sys, run (FkSystem.moment (fun _ => Act.fault) 1024)
      (fkSystemInit 1 false fastClock (fun _ => 0)) deletingMoments =
        some sys ∧ (∀ moment ∈ deletingMoments, moment.Admitted) ∧
      (fkDictGet dbDictEop (sys.svr.expdb 0) (ascii "k")).isSome ∧
        fkDictGet dbDictEop (sys.svr.db 0) (ascii "k") = none ∧
      ¬ sys.svr.Tied := by
  have known : (run (FkSystem.moment (fun _ => Act.fault) 1024)
      (fkSystemInit 1 false fastClock (fun _ => 0)) deletingMoments).map
        (fun sys => ((fkDictGet dbDictEop (sys.svr.expdb 0) (ascii "k")).isSome,
          (fkDictGet dbDictEop (sys.svr.db 0) (ascii "k")).isSome)) = some (true, false) :=
          by decide +kernel
  obtain ⟨sys, reached, parts⟩ := Option.map_eq_some_iff.mp known
  obtain ⟨limit, gone⟩ := Prod.mk.inj parts
  refine ⟨sys, reached, ?_, limit, ?_, fun tied => ?_⟩
  · simp only [deletingMoments, List.forall_mem_cons]
    exact ⟨trivial, (by decide +kernel : Admitted [ascii "SETEX", ascii "k", ascii "1", ascii "v"]),
      (by decide +kernel : Admitted [ascii "DEL", ascii "k"]), nofun⟩
  · exact Option.isSome_eq_false_iff.mp gone |> Option.isNone_iff_eq_none.mp
  · have held := tied 0 (ascii "k") limit
    rw [gone] at held
    cases held

end Freekick
