import Freekick.Store.System

/-!
# Saving the databases of a running server

Commands bring only items into the databases that the dump can write, with one
exception: an empty key or an empty hash field, for which `fwrite` returns zero.
Then the dump is given up, and `SAVE` still answers OK.
-/

namespace Freekick

open Lib.Call

/-! ## What the commands store can be dumped -/

theorem mem_elements_get {V : Type} {dct : FkDict Bytes V} (wf : dct.Wf dbDictEop) {elt : Bytes × V}
    (member : elt ∈ dct.elements) : fkDictGet dbDictEop dct elt.1 = some elt.2 :=
  (wf.represents dbDictEop_lawful elt.1 elt.2).mpr ⟨elt.1, member, dbDictEop_same.mpr rfl⟩

theorem FkItem.Ok.stored {item : FkItem} (ok : item.Ok ArgName) : item.Stored := by
  cases item with
  | str bytes => exact ok
  | list nodes => exact ok
  | dict fields =>
      obtain ⟨wf, held⟩ := ok
      exact ⟨wf, fun selt member => held selt.1 selt.2 (mem_elements_get wf member)⟩
  | sklist => exact ok
  | num number => exact ok

theorem DbOk.stored {dct : FkDb} (ok : DbOk ArgName dct) : DictStored dct where
  wf := ok.wf
  keys := fun elt member => (ok.held elt.1 elt.2 (mem_elements_get ok.wf member)).1
  items := fun elt member => (ok.held elt.1 elt.2 (mem_elements_get ok.wf member)).2.stored

/-- Where every name that was stored is nonempty, the dump finds no empty one. -/
theorem DbOk.named {dct : FkDb} (ok : DbOk (· ≠ []) dct) : DictNamed dct := by
  rintro ⟨key, item⟩ member
  obtain ⟨nonempty, itemOk⟩ := ok.held key item (mem_elements_get ok.wf member)
  refine ⟨nonempty, ?_⟩
  cases item with
  | dict fields =>
      obtain ⟨wf, held⟩ := itemOk
      exact fun selt inside => (held selt.1 selt.2 (mem_elements_get wf inside)).1
  | str bytes => trivial
  | list nodes => trivial
  | sklist => trivial
  | num number => trivial

/-! ## Saving -/

/-- The counts have the values of their types `uint32_t` and `size_t`. -/
structure FkSvr.Counted (svr : FkSvr) : Prop where
  dbcnt : svr.dbcnt < 2 ^ 32
  dicts : ∀ isexp, ∀ idx < svr.dbcnt, DictCounted (svr.dict isexp idx)

/-- No key of a database and no field of a hash is empty. -/
def FkSvr.Named (svr : FkSvr) : Prop := ∀ isexp, ∀ idx < svr.dbcnt, DictNamed (svr.dict isexp idx)

/-- Whatever `rt` holds, the save succeeds, and its file gives a fresh server the same
databases. -/
def FkSvr.SavedBack (svr : FkSvr) : Prop :=
  ∀ rt, ∃ file, fkKdbSave rt svr = (.ok, { svr with dbFile := some file }) ∧
    ∀ fresh : FkSvr, fresh.dbcnt = svr.dbcnt → fresh.Fresh →
      ∃ loaded, fkKdbLoad fresh file = .ok () ⟨loaded, []⟩ ∧ SameDbs svr loaded

/-- `SAVE` answers OK only where the save succeeds. -/
def FkSvr.SaveHonest (svr : FkSvr) : Prop :=
  ∀ out after, fkCmdSave [ascii "SAVE"] ⟨svr, out⟩ = .ok () after →
    after.out.wbuf.payload = out.wbuf.payload ++ ascii "+OK\r\n" → svr.SavedBack

theorem FkSvr.savedBack_iff {svr : FkSvr} (ok : SvrOk ArgName svr) (counted : svr.Counted) :
    svr.SavedBack ↔ svr.Named := by
  have stored : ∀ block ∈ blocks svr.dbcnt, DictStored (svr.dict block.1 block.2) :=
    fun block _ => (ok block.1 block.2).stored
  have conditions : (∀ block ∈ blocks svr.dbcnt, DictNamed (svr.dict block.1 block.2)) ↔
      svr.Named := by
    constructor
    · exact fun named isexp idx below => named (isexp, idx) (mem_blocks.mpr below)
    · exact fun named block member => named block.1 block.2 (mem_blocks.mp member)
  constructor
  · intro saved
    by_contra unnamed
    obtain ⟨after, gaveUp⟩ :=
      (dumpDbs_dumps .ok svr stored).gives_up (conditions.not.mpr unnamed) []
    obtain ⟨file, returns, _⟩ := saved .ok
    rw [fkKdbSave, gaveUp] at returns
    cases returns
  · intro named rt
    have written := (dumpDbs_dumps rt svr stored).writes (conditions.mpr named) []
    refine ⟨_, by rw [fkKdbSave, written], ?_⟩
    intro fresh count empty
    have dumped : ∀ isexp, ∀ idx < svr.dbcnt, DictDumped (svr.dict isexp idx) :=
      fun isexp idx below =>
        ⟨(ok isexp idx).stored, counted.dicts isexp idx below, named isexp idx below⟩
    obtain ⟨loaded, load, _, _, same⟩ := fkKdbLoad_dump counted.dbcnt dumped count empty
    exact ⟨loaded, load, same⟩

/-- On a new connection `SAVE` always answers OK. -/
theorem fkCmdSave_answers (svr : FkSvr) :
    ∃ after, fkCmdSave [ascii "SAVE"] ⟨svr, (fkConnCreate .real fkBufInitLen).toFkConnOut⟩ =
      .ok () after ∧ after.out.wbuf.payload = (fkConnCreate .real fkBufInitLen).wbuf.payload ++
      ascii "+OK\r\n" := by
  have room : 5 ≤ (fkConnCreate .real fkBufInitLen).wbuf.fkBufFreeLen := by decide
  unfold fkCmdSave
  rw [Act.read_bind]
  split
  · obtain ⟨wbuf, called, answer⟩ := @fkConnAddStatusRsp_ok
      ⟨(fkKdbSave (junkRt svr.junk) svr).2, (fkConnCreate .real fkBufInitLen).toFkConnOut⟩ room
    exact ⟨_, called, answer⟩
  · obtain ⟨wbuf, called, answer⟩ := @fkConnAddStatusRsp_ok
      ⟨svr, (fkConnCreate .real fkBufInitLen).toFkConnOut⟩ room
    exact ⟨_, called, answer⟩

theorem FkSvr.saveHonest_iff (svr : FkSvr) : svr.SaveHonest ↔ svr.SavedBack := by
  constructor
  · intro honest
    obtain ⟨after, called, answer⟩ := fkCmdSave_answers svr
    exact honest _ after called answer
  · exact fun saved _ _ _ _ => saved

/-! ## Every reachable state -/

section Reached

variable {fkCmdEval : Handler} {maxWbuf dbcnt : Nat} {blogOn : Bool} {clock : Nat → Int}
  {junk : Nat → UInt8} {events : List Event} {sys : FkSystem}

/-- A state that clients reach can be saved and loaded back, with an honest answer of
`SAVE`, exactly when no key and no field in it is empty.  This is so in every state of
a run whose commands name no empty key and no empty field. -/
theorem fkKdbSave_reached_iff (admitted : ∀ event ∈ events, event.Admitted)
    (reached : (fkSystemInit dbcnt blogOn clock junk).run fkCmdEval maxWbuf events = some sys)
    (counted : sys.svr.Counted) :
    (sys.svr.SavedBack ∧ sys.svr.SaveHonest ↔ sys.svr.Named) ∧
      ((∀ event ∈ events, event.Names (· ≠ [])) → sys.svr.SavedBack ∧ sys.svr.SaveHonest) := by
  have ok : SvrOk ArgName sys.svr :=
    FkSystem.run_ok admitted (fun event member => (admitted event member).names)
      (fkSystemInit_ok dbcnt blogOn clock junk) reached
  have exact : sys.svr.SavedBack ∧ sys.svr.SaveHonest ↔ sys.svr.Named := by
    rw [FkSvr.saveHonest_iff, and_self]
    exact FkSvr.savedBack_iff ok counted
  refine ⟨exact, ?_⟩
  intro names
  have nonempty : SvrOk (· ≠ []) sys.svr :=
    FkSystem.run_ok admitted names (fkSystemInit_ok dbcnt blogOn clock junk) reached
  exact exact.mpr fun isexp idx _ => (nonempty isexp idx).named

end Reached

/-- One client that sends `SET` with the given key. -/
def setRun (key : Bytes) : List Event := [.connect 0, .command 0 [ascii "set", key, ascii "v"]]

theorem setRun_admitted {key : Bytes} (fits : key.length ≤ fkArgHighwat) :
    ∀ event ∈ setRun key, event.Admitted := by
  rw [setRun, List.forall_mem_cons, List.forall_mem_singleton]
  refine ⟨trivial, List.cons_ne_nil _ _, (by decide : 3 ≤ fkArgCntHighwat), ?_,
    (by decide : fkStr2upper (ascii "set") ≠ ascii "EVAL")⟩
  rw [ArgsFit, List.forall_mem_cons, List.forall_mem_cons, List.forall_mem_singleton]
  exact ⟨by decide, fits, by decide⟩

/-- A server whose only database holds one string. -/
theorem counted_of_one {svr : FkSvr} (one : svr.dbcnt = 1) {key value : Bytes}
    (held : (svr.db 0).elements = [(key, .str value)]) (used : (svr.db 0).used = 1)
    (empty : svr.expdb 0 = fkDictCreate) : svr.Counted where
  dbcnt := by
    rw [one]
    decide
  dicts := by
    intro isexp idx below
    rw [one] at below
    obtain rfl := Nat.lt_one_iff.mp below
    cases isexp with
    | false =>
        refine ⟨?_, ?_⟩
        · change (svr.db 0).used < 2 ^ 64
          rw [used]
          decide
        · change ∀ elt ∈ (svr.db 0).elements, _
          rw [held, List.forall_mem_singleton]
          trivial
    | true =>
        change DictCounted (svr.expdb 0)
        rw [empty]
        refine ⟨by decide, ?_⟩
        rw [fkDictCreate, fkDictInit_elements]
        exact fun _ member => absurd member List.not_mem_nil

/-- What `SET` leaves behind. -/
theorem setRun_reached (key : Bytes) {db : FkDb}
    (ran : ((fkSystemInit 1 false (fun _ => 0) (fun _ => 0)).run (fun _ => Act.fault) 1024
      (setRun key)).map (fun sys => (sys.svr.dbcnt, sys.svr.db 0, sys.svr.expdb 0)) = some
        (1, db, fkDictCreate))
    (held : db.elements = [(key, .str (ascii "v"))]) (used : db.used = 1) :
    ∃ sys, (fkSystemInit 1 false (fun _ => 0) (fun _ => 0)).run (fun _ => Act.fault) 1024
      (setRun key) = some sys ∧ sys.svr.dbcnt = 1 ∧
      (sys.svr.db 0).elements = [(key, .str (ascii "v"))] ∧ sys.svr.Counted := by
  obtain ⟨sys, reached, facts⟩ := Option.map_eq_some_iff.mp ran
  obtain ⟨one, rfl, empty⟩ : sys.svr.dbcnt = 1 ∧ sys.svr.db 0 = db ∧
      sys.svr.expdb 0 = fkDictCreate := by
    simpa only [Prod.mk.injEq] using facts
  exact ⟨sys, reached, one, held, counted_of_one one held used empty⟩

/-- The dictionary with one string. -/
def oneStr (key value : Bytes) : FkDb := (fkDictAdd dbDictEop fkDictCreate key (.str value)).2

theorem fkKdbSave_reached_set :
    ∃ sys, (fkSystemInit 1 false (fun _ => 0) (fun _ => 0)).run (fun _ => Act.fault) 1024
      (setRun (ascii "k")) = some sys ∧ sys.svr.Counted ∧ sys.svr.Named ∧ sys.svr.SavedBack ∧
      sys.svr.SaveHonest := by
  obtain ⟨sys, reached, _, _, counted⟩ := @setRun_reached (ascii "k")
    (oneStr (ascii "k") (ascii "v")) (by decide +kernel) (by decide) (by decide)
  have names : ∀ event ∈ setRun (ascii "k"), event.Names (· ≠ []) := by
    rw [setRun, List.forall_mem_cons, List.forall_mem_singleton]
    exact ⟨trivial,
      (by decide : ∀ name ∈ storedNames (ascii "SET") [ascii "k", ascii "v"], name ≠ [])⟩
  have saves := fkKdbSave_reached_iff (setRun_admitted (by decide)) reached counted
  exact ⟨sys, reached, counted, saves.1.mp (saves.2 names), saves.2 names⟩

/-- After `SET` with an empty key nothing is saved, and `SAVE` answers OK. -/
theorem fkKdbSave_fails_empty_key :
    ∃ sys, (fkSystemInit 1 false (fun _ => 0) (fun _ => 0)).run (fun _ => Act.fault) 1024
      (setRun []) = some sys ∧ (∀ event ∈ setRun [], event.Admitted) ∧ sys.svr.Counted ∧
      ¬ sys.svr.SavedBack ∧ ¬ sys.svr.SaveHonest := by
  obtain ⟨sys, reached, one, held, counted⟩ := @setRun_reached [] (oneStr [] (ascii "v"))
    (by decide +kernel) (by decide) (by decide)
  have admitted : ∀ event ∈ setRun [], event.Admitted := setRun_admitted (by decide)
  have ok : SvrOk ArgName sys.svr :=
    FkSystem.run_ok admitted (fun event member => (admitted event member).names)
      (fkSystemInit_ok 1 false _ _) reached
  have unnamed : ¬ sys.svr.Named := by
    intro named
    have here := named false 0 (by rw [one]; decide) ([], .str (ascii "v"))
    have inside : ([], .str (ascii "v")) ∈ (sys.svr.dict false 0).elements := by
      change _ ∈ (sys.svr.db 0).elements
      rw [held]
      exact List.mem_singleton.mpr rfl
    exact (here inside).1 rfl
  have unsaved := (FkSvr.savedBack_iff ok counted).not.mpr unnamed
  exact ⟨sys, reached, admitted, counted, unsaved, (FkSvr.saveHonest_iff _).not.mpr unsaved⟩

end Freekick
