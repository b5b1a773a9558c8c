import Freekick.Store.Lasting

/-!
# What commands leave alone

The handlers change the server only through a few primitives: they put a dictionary in the
place of another one, they read the clock, and they change their connection.  What these keep is
kept by every command but `SAVE` and `EVAL`, and by the sweep.  So the dump file changes only
where a save succeeds.
-/

namespace Freekick

open Lib.Call Lib.Steps

/-- What the primitives of the handlers keep. -/
structure Framed (holds : Work → Prop) : Prop where
  db : ∀ work idx dct, holds work → holds { work with svr := work.svr.setDb idx dct }
  expdb : ∀ work idx dct, holds work → holds { work with svr := work.svr.setExpdb idx dct }
  tick : ∀ work, holds work →
    holds { work with svr := { work.svr with readings := work.svr.readings + 1 } }
  blog : ∀ work blog, holds work → holds { work with svr := { work.svr with blog := blog } }
  out : ∀ work out, holds work → holds { work with out := out }

namespace Framed

variable {holds : Work → Prop} {args : List Bytes} {key : Bytes}

/-! ## The primitives -/

theorem rsp (framed : Framed holds) (text : Bytes) (len : Nat) :
    Act.Keeps holds (addRsp text len) :=
  addRsp_keeps (fun work wbuf start => framed.out work { work.out with wbuf := wbuf } start)
    text len

theorem content (framed : Framed holds) (bytes : Bytes) :
    Act.Keeps holds (addBulkAndContent bytes) :=
  (framed.rsp _ _).bind fun _ => framed.rsp _ _

theorem changeDb (framed : Framed holds) (change : FkDb → FkDb) :
    Act.Keeps holds (Freekick.changeDb change) :=
  Act.Keeps.modify fun work start => framed.db work _ _ start

theorem changeExpdb (framed : Framed holds) (change : FkDb → FkDb) :
    Act.Keeps holds (Freekick.changeExpdb change) :=
  Act.Keeps.modify fun work start => framed.expdb work _ _ start

theorem nowMillis (framed : Framed holds) : Act.Keeps holds Freekick.nowMillis := by
  intro work start
  constructor
  · intro value after ended
    cases ended
    exact framed.tick work start
  · intro after ended
    cases ended

theorem fkHandleExpiredKey (framed : Framed holds) :
    Act.Keeps holds (Freekick.fkHandleExpiredKey key) := by
  refine (Act.Keeps.read _).bind fun exp => ?_
  split
  · exact Act.Keeps.pure _
  · refine framed.nowMillis.bind fun now => ?_
    split
    · exact (framed.changeDb _).bind fun _ => (framed.changeExpdb _).bind fun _ => Act.Keeps.pure _
    · exact Act.Keeps.pure _
  · exact Act.Keeps.fault

theorem getAlive (framed : Framed holds) : Act.Keeps holds (Freekick.getAlive key) := by
  refine framed.fkHandleExpiredKey.bind fun gone => ?_
  split
  · exact Act.Keeps.pure _
  · exact Act.Keeps.read _

/-! ## The handlers -/

theorem delLoop (framed : Framed holds) (keys : List Bytes) (deleted : Nat) :
    Act.Keeps holds (Freekick.delLoop keys deleted) := by
  induction keys generalizing deleted with
  | nil => exact Act.Keeps.pure deleted
  | cons key rest ih =>
      have removed : Act.Keeps holds (dbRemove key) :=
        (Act.Keeps.read _).bind fun _ => (framed.changeDb _).bind fun _ => Act.Keeps.pure _
      exact removed.bind fun _ => ih _

theorem fkCmdFlushall (framed : Framed holds) (args : List Bytes) :
    Act.Keeps holds (Freekick.fkCmdFlushall args) := by
  refine (Act.Keeps.read _).bind fun dbcnt => ?_
  have emptied : Act.Keeps holds (Act.forEach flushOne (List.range dbcnt)) :=
    Act.Keeps.forEach _ fun idx _ => Act.Keeps.modify fun work start =>
      framed.expdb { work with svr := work.svr.setDb idx _ } idx _ (framed.db work idx _ start)
  exact emptied.bind fun _ => framed.rsp _ _

theorem fkCmdSetnx (framed : Framed holds) : Act.Keeps holds (Freekick.fkCmdSetnx args) := by
  refine fkConnGetArg_keeps fun key _ => (Act.Keeps.read _).bind fun value => ?_
  split
  · exact framed.rsp _ _
  · exact fkConnGetArg_keeps fun _ _ => (framed.changeDb _).bind fun _ => framed.rsp _ _

theorem fkCmdSetex (framed : Framed holds) : Act.Keeps holds (Freekick.fkCmdSetex args) :=
  fkConnGetArg_keeps fun _ _ => fkConnGetArg_keeps fun _ _ => fkConnGetArg_keeps fun _ _ =>
    framed.nowMillis.bind fun _ => (framed.changeDb _).bind fun _ =>
      (framed.changeExpdb _).bind fun _ => framed.rsp _ _

theorem fkCmdMset (framed : Framed holds) : Act.Keeps holds (Freekick.fkCmdMset args) := by
  unfold Freekick.fkCmdMset
  split
  · exact framed.rsp _ _
  · exact (Act.Keeps.forEach _ fun _ _ => framed.changeDb _).bind fun _ => framed.rsp _ _

theorem fkCmdMget (framed : Framed holds) : Act.Keeps holds (Freekick.fkCmdMget args) := by
  refine (framed.rsp _ _).bind fun _ => Act.Keeps.forEach _ fun key _ =>
    framed.getAlive.bind fun value => ?_
  split
  · exact framed.content _
  · exact framed.rsp _ _

theorem fkCmdGet (framed : Framed holds) : Act.Keeps holds (Freekick.fkCmdGet args) := by
  refine fkConnGetArg_keeps fun key _ => framed.getAlive.bind fun value => ?_
  split
  · exact framed.rsp _ _
  · exact framed.content _
  · exact framed.rsp _ _

theorem fkCmdGenericPush (framed : Framed holds) (pos : ListPos) :
    Act.Keeps holds (Freekick.fkCmdGenericPush pos args) := by
  refine fkConnGetArg_keeps fun key _ => (Act.Keeps.read _).bind fun value => ?_
  split
  · exact (framed.changeDb _).bind fun _ => framed.rsp _ _
  · exact (framed.changeDb _).bind fun _ => framed.rsp _ _
  · exact framed.rsp _ _

theorem fkCmdGenericPop (framed : Framed holds) (pos : ListPos) :
    Act.Keeps holds (Freekick.fkCmdGenericPop pos args) := by
  refine fkConnGetArg_keeps fun key _ => (Act.Keeps.read _).bind fun value => ?_
  split
  · exact framed.rsp _ _
  · split
    · exact framed.rsp _ _
    · exact (framed.content _).bind fun _ => framed.changeDb _
  · exact framed.rsp _ _

theorem fkCmdLlen (framed : Framed holds) : Act.Keeps holds (Freekick.fkCmdLlen args) := by
  refine fkConnGetArg_keeps fun key _ => (Act.Keeps.read _).bind fun value => ?_
  split <;> exact framed.rsp _ _

theorem fkCmdHset (framed : Framed holds) : Act.Keeps holds (Freekick.fkCmdHset args) := by
  refine fkConnGetArg_keeps fun _ _ => fkConnGetArg_keeps fun _ _ => fkConnGetArg_keeps fun _ _ =>
    (Act.Keeps.read _).bind fun value => ?_
  split
  · exact (framed.changeDb _).bind fun _ => framed.rsp _ _
  · exact (framed.changeDb _).bind fun _ => framed.rsp _ _
  · exact framed.rsp _ _

theorem fkCmdHget (framed : Framed holds) : Act.Keeps holds (Freekick.fkCmdHget args) := by
  refine fkConnGetArg_keeps fun _ _ => fkConnGetArg_keeps fun _ _ =>
    (Act.Keeps.read _).bind fun item => ?_
  split
  · exact framed.rsp _ _
  · split
    · exact framed.rsp _ _
    · exact framed.content _
  · exact framed.rsp _ _

theorem fkCmdSelect (framed : Framed holds) : Act.Keeps holds (Freekick.fkCmdSelect args) := by
  refine fkConnGetArg_keeps fun text _ => (Act.Keeps.read _).bind fun dbcnt => ?_
  dsimp only
  split
  · exact framed.rsp _ _
  · exact (Act.Keeps.modify fun work start => framed.out work _ start).bind fun _ => framed.rsp _ _

theorem fkCmdZadd (framed : Framed holds) : Act.Keeps holds (Freekick.fkCmdZadd args) := by
  refine fkConnGetArg_keeps fun key _ => (Act.Keeps.read _).bind fun item => ?_
  split
  · exact Act.Keeps.fault
  · split <;> exact framed.rsp _ _

/-- Every command of the table but two. -/
theorem handler {fkCmdEval : Handler} {pto : FkProto} (framed : Framed holds)
    (member : pto ∈ protos fkCmdEval) (notEval : pto.name ≠ ascii "EVAL")
    (notSave : pto.name ≠ ascii "SAVE") : Act.Keeps holds (pto.handler args) := by
  cases pto, member using protos_cases with
  | set =>
      exact fkConnGetArg_keeps fun _ _ => fkConnGetArg_keeps fun _ _ =>
        (framed.changeDb _).bind fun _ => framed.rsp _ _
  | setnx => exact framed.fkCmdSetnx
  | setex => exact framed.fkCmdSetex
  | mset => exact framed.fkCmdMset
  | mget => exact framed.fkCmdMget
  | get => exact framed.fkCmdGet
  | del => exact (framed.delLoop _ _).bind fun _ => framed.rsp _ _
  | flushdb =>
      exact (framed.changeDb _).bind fun _ => (framed.changeExpdb _).bind fun _ => framed.rsp _ _
  | existing => exact fkConnGetArg_keeps fun _ _ => (Act.Keeps.read _).bind fun _ => framed.rsp _ _
  | flushall => exact framed.fkCmdFlushall args
  | hset => exact framed.fkCmdHset
  | hget => exact framed.fkCmdHget
  | lpush => exact framed.fkCmdGenericPush .head
  | rpush => exact framed.fkCmdGenericPush .tail
  | lpop => exact framed.fkCmdGenericPop .head
  | rpop => exact framed.fkCmdGenericPop .tail
  | llen => exact framed.fkCmdLlen
  | save => exact absurd rfl notSave
  | select => exact framed.fkCmdSelect
  | eval => exact absurd rfl notEval
  | zadd => exact framed.fkCmdZadd

theorem blogAppend (framed : Framed holds) (pto : FkProto) (args : List Bytes) :
    Act.Keeps holds (Freekick.blogAppend pto args) := by
  refine Act.Keeps.modify fun work start => ?_
  split
  · exact framed.blog work _ start
  · exact start

/-- A request that is not a save. -/
theorem procArgs {fkCmdEval : Handler} {first : Bytes} {rest : List Bytes} (framed : Framed holds)
    (notEval : fkStr2upper first ≠ ascii "EVAL") (notSave : cmdOf (first :: rest) ≠ .save) :
    Act.Keeps holds (Freekick.procArgs fkCmdEval (first :: rest)) := by
  rcases procArgs_cases fkCmdEval first rest with ⟨text, len, rejects⟩ |
      ⟨pto, member, known, counted, runs⟩
  · rw [rejects]
    exact framed.rsp text len
  · have other : pto.name ≠ ascii "SAVE" := by
      intro save
      obtain rfl : pto = ⟨ascii "SAVE", .read, 1, fkCmdSave⟩ :=
        protos_unique fkCmdEval member (by simp [protos]) save
      obtain rfl := List.length_eq_zero_iff.mp (accepts_rest counted (by decide))
      refine notSave ?_
      change Cmd.read (fkStr2upper first) [] = .save
      rw [← known]
      decide
    rw [runs]
    exact (framed.handler member (known ▸ notEval) other).bind fun _ => framed.blogAppend _ _

/-! ## The sweep -/

variable {kept : FkSvr → Prop} {svr after : FkSvr} {rand : Nat → Nat}

theorem sampleOne {idx number : Nat} (framed : Framed fun work => kept work.svr) (start : kept svr)
    (sampled : Freekick.sampleOne idx number svr = some after) : kept after := by
  unfold Freekick.sampleOne at sampled
  split at sampled
  · cases sampled
  · next elt _ =>
      cases called : Freekick.fkHandleExpiredKey elt.1 ⟨svr, sweepOut idx⟩ with
      | ok gone work =>
          rw [called] at sampled
          cases sampled
          exact (framed.fkHandleExpiredKey _ start).1 gone work called
      | err work =>
          rw [called] at sampled
          cases sampled
      | fault =>
          rw [called] at sampled
          cases sampled

theorem sampleLoop {idx left : Nat} {sweep final : FkSweep}
    (framed : Framed fun work => kept work.svr) (start : kept sweep.svr)
    (sampled : Freekick.sampleLoop rand idx left sweep = some final) : kept final.svr := by
  induction left generalizing sweep with
  | zero =>
      cases sampled
      exact start
  | succ left ih =>
      obtain ⟨svr, here, later⟩ := Option.bind_eq_some_iff.mp sampled
      exact ih (framed.sampleOne start here) later

theorem sweepLoop {fuel first : Nat} {sweep final : FkSweep}
    (framed : Framed fun work => kept work.svr) (start : kept sweep.svr)
    (swept : Freekick.sweepLoop rand fuel first sweep = some final) : kept final.svr := by
  induction fuel generalizing first sweep with
  | zero => cases swept
  | succ fuel ih =>
      cases sweepLoop_cases swept with
      | ended _ same =>
          rw [same]
          exact start
      | skipped _ _ _ later => exact ih start later
      | @stopped between _ _ sampled later =>
          have kept : kept between.svr := framed.sampleLoop start sampled
          exact @ih _ { between with sampled := between.sampled ++ [(first, _)] } kept later

theorem sweep {fkCmdEval : Handler} {maxWbuf fuel : Nat} {sys next : FkSystem}
    (framed : Framed fun work => kept work.svr) (start : kept sys.svr)
    (swept : sys.moment fkCmdEval maxWbuf (.sweep rand fuel) = some next) : kept next.svr := by
  obtain ⟨final, called, rfl⟩ := Option.map_eq_some_iff.mp swept
  exact @sweepLoop _ _ _ _ ⟨sys.svr, 0, []⟩ final framed start called

end Framed

/-! ## The dump file -/

theorem file_framed (file : Option Bytes) : Framed fun work => work.svr.dbFile = file where
  db := fun _ _ _ same => same
  expdb := fun _ _ _ same => same
  tick := fun _ same => same
  blog := fun _ _ same => same
  out := fun _ _ same => same

/-- `fk_kdb_save` with what its variable `rt` happens to hold. -/
def FkSvr.save (svr : FkSvr) : FkRt × FkSvr := fkKdbSave (junkRt svr.junk) svr

/-- The dump file after a request. -/
def FkSvr.fileAfter (svr : FkSvr) (args : List Bytes) : Option Bytes :=
  if cmdOf args = .save ∧ svr.savePid = -1 then svr.save.2.dbFile else svr.dbFile

section File

variable {fkCmdEval : Handler} {maxWbuf : Nat} {sys next : FkSystem} {client : Nat}
  {args : List Bytes}

theorem fkCmdSave_eq (svr : FkSvr) (out : FkConnOut) :
    fkCmdSave args ⟨svr, out⟩ =
      fkConnAddStatusRsp fkRspOk ⟨if svr.savePid = -1 then svr.save.2 else svr, out⟩ := by
  unfold fkCmdSave
  rw [Act.read_bind]
  split <;> rfl

theorem procArgs_save {name : Bytes} (named : fkStr2upper name = ascii "SAVE") :
    procArgs fkCmdEval [name] = (fkCmdSave [ascii "SAVE"] >>= fun _ =>
      blogAppend ⟨ascii "SAVE", .read, 1, fkCmdSave⟩ [ascii "SAVE"]) := by
  have found : fkProtoSearch fkCmdEval (ascii "SAVE") = some ⟨ascii "SAVE", .read, 1, fkCmdSave⟩ :=
    (fkProtoSearch_eq_some fkCmdEval).mpr ⟨by simp [protos], rfl⟩
  unfold procArgs
  dsimp only
  rw [named, found]
  rfl

theorem asks_save {name : Bytes} {rest : List Bytes} (asks : Asks name rest .save) :
    name = ascii "SAVE" ∧ rest = [] := by
  cases asks
  exact ⟨rfl, rfl⟩

/-- Only a save changes the file. -/
theorem procArgs_file (notEval : fkStr2upper (args.headD []) ≠ ascii "EVAL") (nonempty : args ≠ [])
    (svr : FkSvr) (out : FkConnOut) :
    (∀ value after, procArgs fkCmdEval args ⟨svr, out⟩ = .ok value after →
      after.svr.dbFile = svr.fileAfter args) ∧ ∀ after,
      procArgs fkCmdEval args ⟨svr, out⟩ = .err after → after.svr.dbFile = svr.fileAfter args := by
  have framed := file_framed (svr.fileAfter args)
  by_cases save : cmdOf args = .save
  · obtain ⟨named, alone⟩ := asks_save (save ▸ cmdOf_asks args)
    obtain ⟨name, rfl⟩ : ∃ name, args = [name] := by
      cases args with
      | nil => exact absurd rfl nonempty
      | cons name rest => exact ⟨name, congrArg (name :: ·) alone⟩
    have file : (if svr.savePid = -1 then svr.save.2 else svr).dbFile = svr.fileAfter [name] := by
      unfold FkSvr.fileAfter
      split
      · next idle => rw [if_pos ⟨save, idle⟩]
      · next busy => rw [if_neg fun both => busy both.2]
    have rest : Act.Keeps (fun work => work.svr.dbFile = svr.fileAfter [name])
        (fkConnAddStatusRsp fkRspOk >>= fun _ =>
          blogAppend ⟨ascii "SAVE", .read, 1, fkCmdSave⟩ [ascii "SAVE"]) :=
      (framed.rsp _ _).bind fun _ => framed.blogAppend _ _
    change fkStr2upper name = ascii "SAVE" at named
    have same : procArgs fkCmdEval [name] ⟨svr, out⟩ = (fkConnAddStatusRsp fkRspOk >>= fun _ =>
        blogAppend ⟨ascii "SAVE", .read, 1, fkCmdSave⟩ [ascii "SAVE"])
          ⟨if svr.savePid = -1 then svr.save.2 else svr, out⟩ := by
      rw [procArgs_save named]
      change Act.andThen _ _ _ = Act.andThen _ _ _
      unfold Act.andThen
      rw [fkCmdSave_eq]
    rw [same]
    exact rest _ file
  · have file : svr.dbFile = svr.fileAfter args :=
      by rw [FkSvr.fileAfter, if_neg fun both => save both.1]
    cases args with
    | nil => exact absurd rfl nonempty
    | cons first rest => exact framed.procArgs notEval save ⟨svr, out⟩ file

theorem FkSystem.command_file {out : FkConnOut} (admitted : Admitted args)
    (connected : sys.conns client = some out)
    (stepped : sys.command fkCmdEval client args = some next) :
    next.svr.dbFile = sys.svr.fileAfter args := by
  have files := @procArgs_file fkCmdEval args admitted.notEval admitted.nonempty sys.svr out
  unfold FkSystem.command at stepped
  rw [connected] at stepped
  dsimp only at stepped
  rw [fkConnProcCmd_args] at stepped
  cases called : procArgs fkCmdEval args ⟨sys.svr, out⟩ with
  | ok value work =>
      rw [called] at stepped
      cases stepped
      exact files.1 value work called
  | err work =>
      rw [called] at stepped
      cases stepped
      exact files.2 work called
  | fault =>
      rw [called] at stepped
      cases stepped

theorem Commanded.savePid (commanded : Commanded fkCmdEval sys client args next) :
    next.svr.savePid = sys.svr.savePid := by
  cases commanded with
  | absent => rfl
  | refused _ _ _ _ leaves => exact congrArg (fun parts => parts.2.1) leaves.frame
  | done _ _ _ leaves => exact congrArg (fun parts => parts.2.1) leaves.frame

end File

end Freekick
