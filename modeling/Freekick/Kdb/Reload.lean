import Freekick.Store.Frame
import Freekick.Store.Save

/-!
# What a dump is loaded as

A save of a good server either gives a file that holds the texts of all its dictionaries or
changes nothing.  Such a file gives a server with empty databases the same keyspaces, and the
databases that it gives are good again.
-/

namespace Freekick

open Lib.Call Lib.KeyedMap

/-! ## One dictionary -/

variable {good : Bytes → Prop} {dct : FkDb} {item : FkItem}

/-- A hash that is built anew has the same fields. -/
theorem fkDictOfElts_same {fields : FkDict Bytes Bytes} (wf : fields.Wf dbDictEop) :
    fkDictGet dbDictEop (fkDictOfElts fields.elements) = fkDictGet dbDictEop fields := by
  have same := fkDictOfElts_get wf id
  simpa only [id, List.map_id', Option.map_id_apply] using same

theorem FkItem.Ok.rebuilt (ok : item.Ok good) : (Freekick.rebuilt item).Ok good := by
  cases item with
  | dict fields =>
      obtain ⟨wf, held⟩ := ok
      have built := (fkDictOfElts_spec wf.distinct).1
      refine ⟨built, fun key value found => held key value ?_⟩
      rwa [fkDictOfElts_same wf] at found
  | str bytes => exact ok
  | list nodes => exact ok
  | sklist => exact ok
  | num number => exact ok

theorem reloaded_get (wf : dct.Wf dbDictEop) (key : Bytes) :
    fkDictGet dbDictEop (reloaded dct) key = (fkDictGet dbDictEop dct key).map rebuilt :=
  congrFun (fkDictOfElts_get wf rebuilt) key

theorem DbOk.reloaded (ok : DbOk good dct) : DbOk good (Freekick.reloaded dct) where
  wf := (fkDictOfElts_spec (ok.wf.distinct.map rebuilt)).1
  held := by
    intro key item found
    rw [reloaded_get ok.wf] at found
    obtain ⟨old, held, rfl⟩ := Option.map_eq_some_iff.mp found
    exact ⟨(ok.held key old held).1, (ok.held key old held).2.rebuilt⟩

theorem rebuilt_number (item : FkItem) : (rebuilt item).number? = item.number? := by
  cases item <;> rfl

/-- A deadline is reloaded as the same number. -/
theorem reloaded_number (wf : dct.Wf dbDictEop) (key : Bytes) :
    (fkDictGet dbDictEop (reloaded dct) key).bind FkItem.number? =
      (fkDictGet dbDictEop dct key).bind FkItem.number? := by
  rw [reloaded_get wf]
  cases fkDictGet dbDictEop dct key with
  | none => rfl
  | some item => exact rebuilt_number item

/-! ## A save -/

/-- The texts of all dictionaries. -/
def FkSvr.dumpText (svr : FkSvr) : Bytes := (blocks svr.dbcnt).flatMap (blockText svr)

/-- What a server has to be for its dump to be read back. -/
structure FkSvr.Good (svr : FkSvr) : Prop where
  ok : SvrOk ArgName svr
  timed : svr.Timed
  counted : svr.Counted

section Save

variable {svr : FkSvr}

theorem dumpDbs_good (ok : SvrOk ArgName svr) (rt : FkRt) :
    Dumps (dumpDbs rt svr) svr.Named svr.dumpText := by
  refine (dumpDbs_dumps rt svr fun block _ => (ok block.1 block.2).stored).congr ?_ rfl
  constructor
  · exact fun named block member => named block.1 block.2 (mem_blocks.mp member)
  · exact fun named isexp idx below => named (isexp, idx) (mem_blocks.mpr below)

/-- A save that succeeds puts the texts in the place of the file, and one that fails leaves it. -/
theorem FkSvr.save_cases (ok : SvrOk ArgName svr) :
    (svr.Named ∧ svr.save = (.ok, { svr with dbFile := some svr.dumpText })) ∨
      (¬ svr.Named ∧ svr.save = (.err, svr)) := by
  have dumps := dumpDbs_good ok (junkRt svr.junk)
  by_cases named : svr.Named
  · refine .inl ⟨named, ?_⟩
    rw [FkSvr.save, fkKdbSave, dumps.writes named []]
    rfl
  · obtain ⟨after, gaveUp⟩ := dumps.gives_up named []
    refine .inr ⟨named, ?_⟩
    rw [FkSvr.save, fkKdbSave, gaveUp]

end Save

/-! ## A load -/

section Load

variable {svr fresh : FkSvr}

/-- Every dictionary of the server is empty. -/
def FkSvr.Empty (svr : FkSvr) : Prop := ∀ isexp idx, svr.dict isexp idx = fkDictCreate

/-- A server that was loaded: its databases, and what the load leaves alone. -/
structure Reloads (svr fresh loaded : FkSvr) : Prop where
  ok : SvrOk ArgName loaded
  timed : loaded.Timed
  spaces : ∀ idx < svr.dbcnt, loaded.spaces idx = svr.spaces idx
  frame : loaded.frame = fresh.frame
  readings : loaded.readings = fresh.readings
  dbFile : loaded.dbFile = fresh.dbFile

theorem withBlocks_kept {A : Type} {look : FkSvr → A}
    (kept : ∀ svr isexp idx dct, look (FkSvr.setDict svr isexp idx dct) = look svr)
    (original : FkSvr) (blks : List (Bool × Nat)) :
    look (withBlocks original fresh blks) = look fresh := by
  induction blks generalizing fresh with
  | nil => rfl
  | cons block rest ih => exact ih.trans (kept _ _ _ _)

theorem withBlocks_dicts (empty : fresh.Empty) (isexp : Bool) (idx : Nat) :
    (withBlocks svr fresh (blocks svr.dbcnt)).dict isexp idx =
      if idx < svr.dbcnt then reloaded (svr.dict isexp idx) else fkDictCreate := by
  split
  · next below => exact withBlocks_dict svr (blocks_nodup _) (mem_blocks.mpr below)
  · next above =>
      rw [withBlocks_dict_other svr fun member => above (mem_blocks.mp member)]
      exact empty isexp idx

theorem withBlocks_reloads (good : svr.Good) (empty : fresh.Empty) :
    Reloads svr fresh (withBlocks svr fresh (blocks svr.dbcnt)) := by
  have dicts := @withBlocks_dicts svr fresh empty
  refine ⟨fun isexp idx => ?_, fun idx key item found => ?_, fun idx below => ?_, ?_, ?_, ?_⟩
  · rw [dicts]
    split
    · exact (good.ok isexp idx).reloaded
    · exact fkDictCreate_ok
  · change fkDictGet dbDictEop (FkSvr.dict _ true idx) key = some item at found
    rw [dicts] at found
    split at found
    · rw [reloaded_get (good.ok true idx).wf] at found
      obtain ⟨old, held, rfl⟩ := Option.map_eq_some_iff.mp found
      obtain ⟨deadline, rfl⟩ := good.timed idx key old held
      exact ⟨deadline, rfl⟩
    · rw [fkDictCreate, fkDictGet_init dbDictEop_lawful] at found
      cases found
  · have values := dicts false idx
    have deadlines := dicts true idx
    rw [if_pos below] at values deadlines
    change (withBlocks svr fresh (blocks svr.dbcnt)).db idx = reloaded (svr.db idx) at values
    change (withBlocks svr fresh (blocks svr.dbcnt)).expdb idx = reloaded
      (svr.expdb idx) at deadlines
    have stored : DictStored (svr.db idx) := (good.ok false idx).stored
    unfold FkSvr.spaces
    rw [values, deadlines, reloaded_map stored]
    congr 1
    exact funext (reloaded_number (good.ok true idx).wf)
  · exact @withBlocks_kept fresh _ FkSvr.frame
      (fun svr isexp idx dct => by cases isexp <;> rfl) svr _
  · exact @withBlocks_kept fresh _ FkSvr.readings
      (fun svr isexp idx dct => by cases isexp <;> rfl) svr _
  · exact @withBlocks_kept fresh _ FkSvr.dbFile
      (fun svr isexp idx dct => by cases isexp <;> rfl) svr _

/-- The texts of a good server are loaded. -/
theorem fkKdbLoad_dumpText (good : svr.Good) (named : svr.Named) (empty : fresh.Empty)
    (count : fresh.dbcnt = svr.dbcnt) :
    ∃ loaded, fkKdbLoad fresh svr.dumpText = .ok () ⟨loaded, []⟩ ∧ Reloads svr fresh loaded := by
  refine ⟨_, loadLoop_blocks ?_ ?_ ?_ (blocks_nodup _) ?_ (Nat.le_refl _),
    withBlocks_reloads good empty⟩
  · intro block member
    have below := mem_blocks.mp member
    exact ⟨(good.ok block.1 block.2).stored, good.counted.dicts block.1 block.2 below,
      named block.1 block.2 below⟩
  · intro block member
    rw [count]
    exact mem_blocks.mp member
  · rw [count]
    exact Nat.le_of_lt good.counted.dbcnt
  · exact fun block _ => empty block.1 block.2

end Load

end Freekick
