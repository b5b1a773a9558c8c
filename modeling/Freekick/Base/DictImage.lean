import Freekick.Base.DictMap

/-!
# Images of dictionaries

The image of a dictionary has another key in the place of every key, and another value in the
place of every value.  When the keys are hashed and compared as before, a call on the image
gives the image of what it gives on the dictionary.
-/

namespace Freekick

open Lib.Buckets

variable {K V L W : Type}

/-- The images of keys are hashed and compared as the keys are. -/
structure FkEltOp.Through (eop : FkEltOp K) (key : K → L) (other : FkEltOp L) : Prop where
  hash : ∀ elt, other.keyHash (key elt) = eop.keyHash elt
  cmp : ∀ first second, other.keyCmp (key first) (key second) = eop.keyCmp first second

def FkDict.image (key : K → L) (value : V → W) (dct : FkDict K V) : FkDict L W where
  size := dct.size
  sizeMask := dct.sizeMask
  used := dct.used
  limit := dct.limit
  buckets := mapSlots (Prod.map key value) dct.buckets

section Image

variable {eop : FkEltOp K} {other : FkEltOp L} {key : K → L} {value : V → W} {dct : FkDict K V}

theorem FkDict.image_congr {key' : K → L} {value' : V → W}
    (same : ∀ elt ∈ dct.elements, key' elt.1 = key elt.1 ∧ value' elt.2 = value elt.2) :
    dct.image key' value' = dct.image key value := by
  have slots : mapSlots (Prod.map key' value') dct.buckets = mapSlots (Prod.map key value)
      dct.buckets :=
    mapSlots_congr fun elt member => Prod.ext (same elt member).1 (same elt member).2
  rw [image, image, slots]

@[simp]
theorem fkDictLen_image (dct : FkDict K V) : fkDictLen (dct.image key value) = fkDictLen dct := rfl

@[simp]
theorem fkDictInit_image : (fkDictInit : FkDict K V).image key value = fkDictInit := by
  rw [FkDict.image, fkDictInit, mapSlots_replicate]
  rfl

/-! ## Searches -/

theorem chain_image (dct : FkDict K V) (index : Nat) :
    chain (dct.image key value).buckets index = (chain dct.buckets index).map
      (Prod.map key value) :=
  chain_mapSlots _

theorem fkDictSearch_image (through : eop.Through key other) (dct : FkDict K V) (wanted : K) :
    fkDictSearch other (dct.image key value) (key wanted) = fkDictSearch eop dct wanted := by
  unfold fkDictSearch
  dsimp only
  rw [through.hash, chain_image, List.findIdx?_map]
  have same : (fun elt : L × W => other.keyCmp elt.1 (key wanted) == 0) ∘ Prod.map key value =
      fun elt : K × V => eop.keyCmp elt.1 wanted == 0 := by
    funext elt
    change (other.keyCmp (key elt.1) (key wanted) == 0) = _
    rw [through.cmp]
  rw [same]
  rfl

theorem fkDictElt_image (through : eop.Through key other) (dct : FkDict K V) (wanted : K) :
    fkDictElt other (dct.image key value) (key wanted) = (fkDictElt eop dct wanted).map
      (Prod.map key value) := by
  unfold fkDictElt
  rw [fkDictSearch_image through]
  split
  · rfl
  · rw [chain_image, List.getElem?_map]

theorem fkDictGet_image (through : eop.Through key other) (dct : FkDict K V) (wanted : K) :
    fkDictGet other (dct.image key value) (key wanted) = (fkDictGet eop dct wanted).map value := by
  rw [fkDictGet_eq_elt, fkDictGet_eq_elt, fkDictElt_image through, Option.map_map, Option.map_map]
  rfl

/-! ## Changes -/

theorem fkDictStretch_image (through : eop.Through key other) (dct : FkDict K V) :
    fkDictStretch other (dct.image key value) = (fkDictStretch eop dct).image key value := by
  by_cases small : dct.used < dct.limit
  · rw [fkDictStretch, fkDictStretch, if_pos small]
    exact if_pos small
  · have place : (fun elt : K × V => (eop.keyHash elt.1).toNat &&& (dct.size <<< 1 - 1)) =
        fun elt => (other.keyHash (Prod.map key value elt).1).toNat &&& (dct.size <<< 1 - 1) := by
      funext elt
      change _ = (other.keyHash (key elt.1)).toNat &&& _
      rw [through.hash]
    have pushed := mapSlots_foldl_push (Prod.map key value)
      (fun elt => (other.keyHash elt.1).toNat &&& (dct.size <<< 1 - 1))
      (contents dct.buckets) (List.replicate (dct.size <<< 1) none)
    rw [mapSlots_replicate, ← contents_mapSlots, ← place, ← foldl_slots, ← foldl_slots] at pushed
    rw [fkDictStretch, fkDictStretch, if_neg small,
      if_neg (show ¬ (dct.image key value).used < (dct.image key value).limit from small)]
    exact congrArg (fun buckets => (⟨_, _, _, _, buckets⟩ : FkDict L W)) pushed.symm

theorem fkDictAdd_image (through : eop.Through key other) (dct : FkDict K V) (new : K) (elt : V) :
    fkDictAdd other (dct.image key value) (key new) (value elt) =
      ((fkDictAdd eop dct new elt).1, (fkDictAdd eop dct new elt).2.image key value) := by
  have room : (if (dct.image key value).used = (dct.image key value).limit then
      fkDictStretch other (dct.image key value) else dct.image key value) =
      (if dct.used = dct.limit then fkDictStretch eop dct else dct).image key value := by
    rw [apply_ite (FkDict.image key value), ← fkDictStretch_image through]
    rfl
  unfold fkDictAdd
  dsimp only
  rw [room, fkDictSearch_image through]
  split
  · rfl
  · rw [chain_image]
    unfold FkDict.image
    rw [mapSlots_set]
    rfl

theorem fkDictPut_image (through : eop.Through key other) (dct : FkDict K V)
    (wanted : K) (elt : V) :
    fkDictPut other (dct.image key value) (key wanted) (value elt) =
      (fkDictPut eop dct wanted elt).image key value := by
  unfold fkDictPut
  rw [fkDictSearch_image through]
  split
  · rfl
  · next idx position found =>
      have modified : ((chain dct.buckets idx).map (Prod.map key value)).modify position
          (fun old => (old.1, value elt)) = ((chain dct.buckets idx).modify position fun old =>
            (old.1, elt)).map (Prod.map key value) := by
        refine List.ext_getElem? fun index => ?_
        rw [List.getElem?_modify, List.getElem?_map, List.getElem?_map, List.getElem?_modify]
        cases (chain dct.buckets idx)[index]? with
        | none => rfl
        | some old =>
            change some (if position = index then _ else _) = some
              (Prod.map key value (if position = index then _ else _))
            split <;> rfl
      rw [chain_image, modified]
      unfold FkDict.image
      rw [mapSlots_set]

theorem fkDictReplace_image (through : eop.Through key other) (dct : FkDict K V)
    (new : K) (elt : V) :
    (fkDictReplace other (dct.image key value) (key new) (value elt)).2 =
      (fkDictReplace eop dct new elt).2.image key value := by
  unfold fkDictReplace
  rw [fkDictAdd_image through]
  cases added : fkDictAdd eop dct new elt with
  | mk rt wide =>
      cases rt with
      | ok => rfl
      | err => exact fkDictPut_image through wide new elt

theorem fkDictRemove_image (through : eop.Through key other) (dct : FkDict K V) (gone : K) :
    fkDictRemove other (dct.image key value) (key gone) =
      ((fkDictRemove eop dct gone).1, (fkDictRemove eop dct gone).2.image key value) := by
  unfold fkDictRemove
  rw [fkDictSearch_image through]
  split
  · rfl
  · rw [chain_image, List.eraseIdx_map]
    unfold FkDict.image
    rw [mapSlots_set]

/-- One value that is stored once has another image. -/
theorem FkDict.image_update [DecidableEq K] [DecidableEq V] (lawful : eop.Lawful) (wf : dct.Wf eop)
    (through : eop.Through key other) {wanted : K} {elt : V}
    (found : fkDictGet eop dct wanted = some elt)
    (sole : (dct.elements.map Prod.snd).count elt ≤ 1) (new : W) :
    dct.image key (Function.update value elt new) = fkDictPut other (dct.image key value)
      (key wanted) new := by
  unfold fkDictGet at found
  cases searched : fkDictSearch eop dct wanted with
  | mk idx result =>
      rw [searched] at found
      cases result with
      | none => cases found
      | some position =>
          obtain ⟨_, front, stored, back, chained, rfl, _⟩ := fkDictSearch_some searched
          have isElt : stored.2 = elt := by
            change ((chain dct.buckets idx)[front.length]?).map Prod.snd = some elt at found
            rw [chained] at found
            simpa using found
          have perm := contents_remove chained
          have others : ∀ item ∈ contents (dct.buckets.set idx (some (front ++ back))),
              item.2 ≠ elt := by
            intro item member same
            have counted := (perm.map Prod.snd).count_eq elt
            rw [List.map_cons, isElt, List.count_cons_self] at counted
            have positive : 0 < ((contents (dct.buckets.set idx (some (front ++ back)))).map
                Prod.snd).count elt :=
              List.count_pos_iff.mpr (List.mem_map.mpr ⟨item, member, same⟩)
            have once : ((contents dct.buckets).map Prod.snd).count elt ≤ 1 := sole
            omega
          have nodup : (contents dct.buckets).Nodup := by
            refine List.Pairwise.imp ?_ wf.distinct
            rintro first _ apart rfl
            exact apart (lawful.equiv.refl _)
          have updated := mapSlots_update nodup chained (Prod.map key value) (key stored.1, new)
          have same : mapSlots (Prod.map key (Function.update value elt new)) dct.buckets =
              mapSlots (Function.update (Prod.map key value) stored (key stored.1, new))
                dct.buckets := by
            refine mapSlots_congr fun item member => ?_
            rcases List.mem_cons.mp (perm.subset member) with rfl | other
            · rw [Function.update_self, Prod.map_apply', isElt, Function.update_self]
            · have differs : item ≠ stored := by
                rintro rfl
                exact others item other isElt
              rw [Function.update_of_ne differs, Prod.map_apply',
                Function.update_of_ne (others item other)]
              rfl
          have modified : ((chain dct.buckets idx).map (Prod.map key value)).modify front.length
              (fun old => (old.1, new)) = front.map (Prod.map key value) ++ (key stored.1, new) ::
              back.map (Prod.map key value) := by
            rw [chained, List.modify_eq_set_getElem?]
            simp
          rw [fkDictPut, fkDictSearch_image through, searched]
          dsimp only
          rw [chain_image, modified, image, same, updated]
          rfl

/-! ## Iterators -/

section Iter

variable (key value)

def FkDictIter.image (iter : FkDictIter K V) : FkDictIter L W :=
  ⟨iter.idx, iter.cur.map (Prod.map key value), iter.next.map (Prod.map key value)⟩

theorem iterLoop_image (dct : FkDict K V) (fuel : Nat) (iter : FkDictIter K V) :
    iterLoop (dct.image key value) fuel (iter.image key value) =
      ((iterLoop dct fuel iter).1.map (Prod.map key value),
        (iterLoop dct fuel iter).2.image key value) := by
  induction fuel generalizing iter with
  | zero => rfl
  | succ fuel ih =>
      obtain ⟨idx, cur, next⟩ := iter
      cases cur with
      | nil =>
          by_cases last : idx + 1 = (dct.size : Int)
          · simp [iterLoop, FkDictIter.image, FkDict.image, last]
          · have chained : chain (dct.image key value).buckets (idx + 1).toNat = _ :=
              chain_image dct _
            have still : ¬ idx + 1 = ((dct.image key value).size : Int) := last
            simp only [iterLoop, FkDictIter.image, List.map_nil, List.isEmpty_nil, ↓reduceIte, last,
              still, chained]
            cases chain dct.buckets (idx + 1).toNat with
            | nil => exact ih ⟨idx + 1, [], next⟩
            | cons elt rest => rfl
      | cons elt rest =>
          simp only [iterLoop, FkDictIter.image, List.map_cons, List.isEmpty_cons,
            Bool.false_eq_true, ↓reduceIte]
          cases next with
          | nil => exact ih ⟨idx, [], []⟩
          | cons other later => rfl

theorem fkDictIterNext_image (dct : FkDict K V) (iter : FkDictIter K V) :
    fkDictIterNext (dct.image key value) (iter.image key value) =
      ((fkDictIterNext dct iter).1.map (Prod.map key value),
        (fkDictIterNext dct iter).2.image key value) :=
  iterLoop_image key value dct (dct.size + 2) iter

theorem randomLoop_image (dct : FkDict K V) (tryTimes : Nat) (iter : FkDictIter K V)
    (elt : Option (K × V)) :
    randomLoop (dct.image key value) tryTimes (iter.image key value)
      (elt.map (Prod.map key value)) = (randomLoop dct tryTimes iter elt).map
      (Prod.map key value) := by
  induction tryTimes generalizing iter elt with
  | zero => rfl
  | succ tryTimes ih =>
      unfold randomLoop
      rw [fkDictIterNext_image]
      exact ih _ _

theorem fkDictRandom_image (dct : FkDict K V) (number : Nat) :
    fkDictRandom (dct.image key value) number = (fkDictRandom dct number).map
      (Prod.map key value) := by
  unfold fkDictRandom
  rw [fkDictLen_image]
  split
  · rfl
  · exact randomLoop_image key value dct _ fkDictIterBegin none

end Iter

end Image

end Freekick
