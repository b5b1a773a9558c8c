import Freekick.Kdb.Format

/-!
# Loading a dump

Every block of a dump is restored into its own dictionary, so on empty dictionaries
the whole file gives databases that stand for the same maps.
-/

namespace Freekick

open Lib.Call Lib.Little Lib.KeyedMap

theorem rebuilt_value {item : FkItem} (stored : item.Stored) :
    (rebuilt item).value = item.value := by
  cases item with
  | dict fields =>
      have same := fkDictOfElts_get stored.1 id
      simp only [id, List.map_id', Option.map_id_apply] at same
      rw [rebuilt, FkItem.value, FkItem.value, same]
  | str bytes => rfl
  | list nodes => rfl
  | sklist => rfl
  | num number => rfl

/-- What a dictionary is after its text was restored into an empty one. -/
def reloaded (dct : FkDb) : FkDb :=
  fkDictOfElts (dct.elements.map fun elt => (elt.1, rebuilt elt.2))

theorem reloaded_map {dct : FkDb} (stored : DictStored dct) : dbMap (reloaded dct) = dbMap dct := by
  funext key
  have lookup := congrFun (fkDictOfElts_get stored.wf rebuilt) key
  rw [dbMap, dbMap, reloaded, lookup, Option.map_map]
  cases found : fkDictGet dbDictEop dct key with
  | none => rfl
  | some item =>
      obtain ⟨holder, member, _⟩ := (stored.wf.represents dbDictEop_lawful key item).mp found
      exact congrArg some (rebuilt_value (stored.items _ member))

/-! ## One dictionary -/

theorem restoreMany_loads {isexp : Bool} {idx : Nat} (elts : List (Bytes × FkItem))
    (each : ∀ elt ∈ elts, Loads (restoreElt isexp idx) (eltText elt)
      fun svr => withElt isexp idx svr elt.1 (rebuilt elt.2)) (svr : FkSvr) (rest : Bytes) :
    ∃ units, Act.times (restoreElt isexp idx) elts.length ⟨svr, elts.flatMap eltText ++ rest⟩ =
      .ok units ⟨svr.setDict isexp idx ((elts.map fun elt => (elt.1, rebuilt elt.2)).foldl
        (fun dct elt => (fkDictAdd dbDictEop dct elt.1 elt.2).2) (svr.dict isexp idx)), rest⟩ := by
  induction elts generalizing svr with
  | nil =>
      refine ⟨[], ?_⟩
      rw [List.map_nil, List.foldl_nil, FkSvr.setDict_self]
      rfl
  | cons elt later ih =>
      have here := each elt (List.mem_cons_self ..) svr (later.flatMap eltText ++ rest)
      obtain ⟨units, restored⟩ :=
        ih (fun other member => each other (List.mem_cons_of_mem _ member))
          (withElt isexp idx svr elt.1 (rebuilt elt.2))
      refine ⟨() :: units, ?_⟩
      rw [withElt, FkSvr.setDict_setDict, FkSvr.dict_setDict_same] at restored
      rw [List.flatMap_cons, List.append_assoc, List.length_cons, Act.times, Act.bind_ok here]
      dsimp only [withElt]
      rw [Act.bind_ok restored]
      rfl

/-- A dictionary that is read back. -/
structure DictDumped (dct : FkDb) : Prop where
  stored : DictStored dct
  counted : DictCounted dct
  named : DictNamed dct

theorem fkKdbRestore_loads {svr : FkSvr} {isexp : Bool} {idx : Nat} {dct : FkDb}
    (dumped : DictDumped dct) (inside : idx < svr.dbcnt) (small : idx < 2 ^ 32)
    (fresh : svr.dict isexp idx = fkDictCreate) (rest : Bytes) :
    fkKdbRestore ⟨svr, dictText isexp idx dct ++ rest⟩ =
      .ok () ⟨svr.setDict isexp idx (reloaded dct), rest⟩ := by
  have readIdx := freadWord_reads 3 idx
  have idxEq : decode (encode 4 idx) = idx := decode_encode small
  have readExp : Reads (fread 4) (encode 4 isexp.toNat) (some (encode 4 isexp.toNat)) := by
    have reads := fread_reads (List.ne_nil_of_length_pos
      (by rw [length_encode]; decide : 0 < (encode 4 isexp.toNat).length))
    rwa [length_encode] at reads
  have expEq : (decode (encode 4 isexp.toNat) == 1) = isexp := by cases isexp <;> decide
  have each : ∀ elt ∈ dct.elements, Loads (restoreElt isexp idx) (eltText elt)
      fun svr => withElt isexp idx svr elt.1 (rebuilt elt.2) := fun elt member =>
    restoreElt_loads (dumped.named elt member) (dumped.stored.keys elt member)
      (dumped.stored.items elt member) (dumped.counted.items elt member)
  obtain ⟨units, restored⟩ := restoreMany_loads dct.elements each svr rest
  have countRead := restoreSize_reads dumped.counted.used svr (dct.elements.flatMap eltText ++ rest)
  rw [dictText, List.append_assoc, List.append_assoc, List.append_assoc, fkKdbRestore_eq,
    Act.bind_ok (readIdx svr _), idxEq, Act.read_bind, if_neg (Nat.not_le.mpr inside),
    Act.bind_ok (readExp svr _), Option.getD_some, expEq, Act.bind_ok countRead,
    dumped.stored.wf.count, Act.bind_ok restored, fresh]
  rfl

/-! ## The whole file -/

/-- The server after the texts of some blocks were loaded. -/
def withBlocks (original : FkSvr) (svr : FkSvr) (blks : List (Bool × Nat)) : FkSvr :=
  blks.foldl (fun svr block =>
    svr.setDict block.1 block.2 (reloaded (original.dict block.1 block.2))) svr

theorem withBlocks_dbcnt (original svr : FkSvr) (blks : List (Bool × Nat)) :
    (withBlocks original svr blks).dbcnt = svr.dbcnt := by
  induction blks generalizing svr with
  | nil => rfl
  | cons block rest ih => exact (ih _).trans (FkSvr.setDict_dbcnt ..)

theorem withBlocks_dict_other (original : FkSvr) {svr : FkSvr} {blks : List (Bool × Nat)}
    {isexp : Bool} {idx : Nat} (outside : (isexp, idx) ∉ blks) :
    (withBlocks original svr blks).dict isexp idx = svr.dict isexp idx := by
  induction blks generalizing svr with
  | nil => rfl
  | cons block rest ih =>
      obtain ⟨apart, later⟩ := not_or.mp (List.mem_cons.not.mp outside)
      exact (ih later).trans (FkSvr.dict_setDict_other svr _ apart)

theorem withBlocks_dict (original : FkSvr) {svr : FkSvr} {blks : List (Bool × Nat)}
    (nodup : blks.Nodup) {isexp : Bool} {idx : Nat} (member : (isexp, idx) ∈ blks) :
    (withBlocks original svr blks).dict isexp idx = reloaded (original.dict isexp idx) := by
  induction blks generalizing svr with
  | nil => cases member
  | cons block rest ih =>
      obtain ⟨fresh, later⟩ := List.nodup_cons.mp nodup
      rcases List.mem_cons.mp member with rfl | earlier
      · exact (withBlocks_dict_other original fresh).trans (FkSvr.dict_setDict_same ..)
      · exact ih later earlier

theorem blocks_nodup (dbcnt : Nat) : (blocks dbcnt).Nodup := by
  refine List.nodup_flatMap.mpr ⟨?_, ?_⟩
  · intro idx _
    exact List.nodup_cons.mpr ⟨by simp, List.nodup_singleton _⟩
  · refine List.Pairwise.imp ?_ List.nodup_range
    intro first second apart
    simp [Function.onFun, apart.symm]

theorem blockText_ne_nil (svr : FkSvr) (block : Bool × Nat) : blockText svr block ≠ [] :=
  List.cons_ne_nil _ _

theorem loadLoop_blocks {original svr : FkSvr} {blks : List (Bool × Nat)} {fuel : Nat}
    (dumped : ∀ block ∈ blks, DictDumped (original.dict block.1 block.2))
    (inside : ∀ block ∈ blks, block.2 < svr.dbcnt) (small : svr.dbcnt ≤ 2 ^ 32) (nodup : blks.Nodup)
    (fresh : ∀ block ∈ blks, svr.dict block.1 block.2 = fkDictCreate)
    (enough : (blks.flatMap (blockText original)).length ≤ fuel) :
    loadLoop fuel ⟨svr, blks.flatMap (blockText original)⟩ = .ok ()
      ⟨withBlocks original svr blks, []⟩ := by
  induction blks generalizing svr fuel with
  | nil =>
      cases fuel with
      | zero => rfl
      | succ fuel => rfl
  | cons block rest ih =>
      obtain ⟨isexp, idx⟩ := block
      have positive := List.length_pos_of_ne_nil (blockText_ne_nil original (isexp, idx))
      rw [List.flatMap_cons, List.length_append] at enough
      obtain ⟨apart, later⟩ := List.nodup_cons.mp nodup
      have here := List.mem_cons_self (a := (isexp, idx)) (l := rest)
      cases fuel with
      | zero => omega
      | succ fuel =>
          have restored := fkKdbRestore_loads (dumped _ here) (inside _ here)
            (Nat.lt_of_lt_of_le (inside _ here) small) (fresh _ here)
            (rest.flatMap (blockText original))
          have remaining : (blockText original (isexp, idx) ++ rest.flatMap
              (blockText original)).isEmpty = false :=
            List.isEmpty_eq_false_iff.mpr
              (List.append_ne_nil_of_left_ne_nil (blockText_ne_nil _ _) _)
          have tail := @ih (svr.setDict isexp idx (reloaded (original.dict isexp idx))) fuel
            (fun other member => dumped other (List.mem_cons_of_mem _ member))
            (fun other member => by
              rw [FkSvr.setDict_dbcnt]
              exact inside other (List.mem_cons_of_mem _ member))
            (by rwa [FkSvr.setDict_dbcnt]) later
            (fun other member => by
              have different : (other.1, other.2) ≠ (isexp, idx) :=
                fun same => apart (same ▸ member)
              rw [FkSvr.dict_setDict_other svr _ different]
              exact fresh other (List.mem_cons_of_mem _ member))
            (by omega)
          rw [loadLoop_succ, List.flatMap_cons, Act.read_bind, remaining, if_neg (by decide)]
          exact (Act.bind_ok restored).trans tail

/-- What `fk_kdb_load` starts from: empty dictionaries. -/
def FkSvr.Fresh (svr : FkSvr) : Prop :=
  ∀ isexp, ∀ idx < svr.dbcnt, svr.dict isexp idx = fkDictCreate

/-- The same databases as finite maps. -/
def SameDbs (first second : FkSvr) : Prop :=
  ∀ isexp, ∀ idx < first.dbcnt, dbMap (second.dict isexp idx) = dbMap (first.dict isexp idx)

/-- The file of a server is loaded back, and every dictionary it gives is well formed. -/
theorem fkKdbLoad_dump {svr fresh : FkSvr} (small : svr.dbcnt < 2 ^ 32)
    (dumped : ∀ isexp, ∀ idx < svr.dbcnt, DictDumped (svr.dict isexp idx))
    (count : fresh.dbcnt = svr.dbcnt) (empty : fresh.Fresh) :
    ∃ loaded, fkKdbLoad fresh ((blocks svr.dbcnt).flatMap (blockText svr)) = .ok () ⟨loaded, []⟩ ∧
      loaded.dbcnt = svr.dbcnt ∧
      (∀ isexp, ∀ idx < svr.dbcnt, (loaded.dict isexp idx).Wf dbDictEop) ∧ SameDbs svr loaded := by
  have restored : ∀ isexp, ∀ idx < svr.dbcnt,
      (withBlocks svr fresh (blocks svr.dbcnt)).dict isexp idx = reloaded (svr.dict isexp idx) :=
    fun isexp idx below => withBlocks_dict svr (blocks_nodup _) (mem_blocks.mpr below)
  refine ⟨withBlocks svr fresh (blocks svr.dbcnt), ?_, ?_, ?_, ?_⟩
  · refine loadLoop_blocks ?_ ?_ (by rw [count]; omega) (blocks_nodup _) ?_ (Nat.le_refl _)
    · exact fun block member => dumped block.1 block.2 (mem_blocks.mp member)
    · intro block member
      rw [count]
      exact mem_blocks.mp member
    · intro block member
      refine empty block.1 block.2 ?_
      rw [count]
      exact mem_blocks.mp member
  · rw [withBlocks_dbcnt, count]
  · intro isexp idx below
    rw [restored isexp idx below]
    exact (fkDictOfElts_spec ((dumped isexp idx below).stored.wf.distinct.map rebuilt)).1
  · intro isexp idx below
    rw [restored isexp idx below]
    exact reloaded_map (dumped isexp idx below).stored

/-- The dump writes its file, and the loop of the load takes exactly that file and rebuilds
the same finite maps, lists in their order. -/
theorem fkKdb_round_trip (rt : FkRt) {svr fresh : FkSvr} (small : svr.dbcnt < 2 ^ 32)
    (dumped : ∀ isexp, ∀ idx < svr.dbcnt, DictDumped (svr.dict isexp idx))
    (count : fresh.dbcnt = svr.dbcnt) (empty : fresh.Fresh) :
    ∃ file loaded, dumpDbs rt svr [] = .ok () file ∧
      fkKdbSave rt svr = (.ok, { svr with dbFile := some file }) ∧
      fkKdbLoad fresh file = .ok () ⟨loaded, []⟩ ∧ loaded.dbcnt = svr.dbcnt ∧
      (∀ isexp, ∀ idx < svr.dbcnt, (loaded.dict isexp idx).Wf dbDictEop) ∧ SameDbs svr loaded := by
  have dumps := dumpDbs_dumps rt svr fun block member =>
    (dumped block.1 block.2 (mem_blocks.mp member)).stored
  have written := dumps.writes (fun block member => (dumped _ _ (mem_blocks.mp member)).named) []
  obtain ⟨loaded, load, rest⟩ := fkKdbLoad_dump small dumped count empty
  refine ⟨_, loaded, written, ?_, load, rest⟩
  rw [fkKdbSave, written]

/-- A hash with an empty value and a list with an empty node. -/
def sampleDict : FkDb :=
  (fkDictAdd dbDictEop
    (fkDictAdd dbDictEop fkDictCreate [104] (.dict (fkDictAdd dbDictEop fkDictCreate [102] []).2)).2
    [108] (.list [[], [0]])).2

theorem sampleDict_dumped : DictDumped sampleDict := by
  have hash : ((fkDictAdd dbDictEop fkDictCreate [102] []).2 : FkDict Bytes Bytes).Wf dbDictEop :=
    fkDictAdd_wf dbDictEop_lawful fkDictInit_wf _ _
  have wf : sampleDict.Wf dbDictEop :=
    fkDictAdd_wf dbDictEop_lawful (fkDictAdd_wf dbDictEop_lawful fkDictInit_wf _ _) _ _
  have elements : sampleDict.elements = [([108], .list [[], [0]]),
      ([104], .dict (fkDictAdd dbDictEop fkDictCreate [102] []).2)] := by decide
  have nodes : ∀ node ∈ ([[], [0]] : List Bytes), node.length ≤ fkArgHighwat := by decide
  have fields : ∀ selt ∈ (fkDictAdd dbDictEop fkDictCreate [102] ([] : Bytes)).2.elements,
      selt.1 ≠ [] ∧ selt.1.length ≤ fkArgHighwat ∧ selt.2.length ≤ fkArgHighwat := by decide
  refine ⟨⟨wf, ?_, ?_⟩, ⟨by decide, ?_⟩, ?_⟩
  · rw [elements]
    decide
  · rw [elements, List.forall_mem_cons, List.forall_mem_singleton]
    exact ⟨nodes, hash, fun selt member => (fields selt member).2⟩
  · rw [elements, List.forall_mem_cons, List.forall_mem_singleton]
    exact ⟨(by decide : 2 < 2 ^ 64), (by decide : 1 < 2 ^ 64)⟩
  · rw [DictNamed, elements, List.forall_mem_cons, List.forall_mem_singleton]
    exact ⟨⟨by decide, trivial⟩, by decide, fun selt member => (fields selt member).1⟩

theorem fkKdb_round_trip_sample :
    let svr : FkSvr := { fkSvrInit 2 false (fun _ => 0) (fun _ => 0) with
      db := fun _ => sampleDict }
    let fresh := fkSvrInit 2 false (fun _ => 0) (fun _ => 0)
    ∃ file loaded, dumpDbs .ok svr [] = .ok () file ∧ fkKdbLoad fresh file = .ok () ⟨loaded, []⟩ ∧
      SameDbs svr loaded := by
  intro svr fresh
  have emptyDumped : DictDumped fkDictCreate := by
    have none : (fkDictCreate : FkDb).elements = [] := fkDictInit_elements
    refine ⟨⟨fkDictInit_wf, ?_, ?_⟩, ⟨by decide, ?_⟩, ?_⟩
    all_goals
      intro elt member
      rw [none] at member
      cases member
  have dumped : ∀ isexp, ∀ idx < svr.dbcnt, DictDumped (svr.dict isexp idx) := by
    intro isexp idx _
    cases isexp
    · exact sampleDict_dumped
    · exact emptyDumped
  have empty : fresh.Fresh := by
    intro isexp idx _
    cases isexp <;> rfl
  obtain ⟨file, loaded, dump, _, load, _, _, same⟩ :=
    fkKdb_round_trip .ok (by decide : svr.dbcnt < 2 ^ 32) dumped
      (rfl : fresh.dbcnt = svr.dbcnt) empty
  exact ⟨file, loaded, dump, load, same⟩

end Freekick
