import Freekick.Base.DictMap
import Freekick.Base.RawLists

/-!
# Dictionaries in memory

The buckets of a dictionary are raw lists, and its elements are nodes of one store.  What a
bucket of the dictionary holds are the elements of the nodes of its list.
-/

namespace Freekick

open Lib.Buckets Lib.Nodes

/-- `fk_dict_t` with its nodes.  A node that is not live is freed memory. -/
structure DictHeap (N K V : Type) where
  size : Nat
  sizeMask : Nat
  used : Nat
  limit : Nat
  buckets : List (Option (RawList N))
  store : NodeStore N
  elt : N → K × V
  live : N → Bool

/-- `fk_dict_iter_t`. -/
structure NodeIter (N : Type) where
  idx : Int
  cur : Option N
  next : Option N
  deriving DecidableEq, Repr

variable {N K V : Type} [DecidableEq N]

namespace DictHeap

variable (heap : DictHeap N K V)

omit [DecidableEq N] in
/-- The search along a chain.  `none`: it reads a node that is freed, or it does not end. -/
def searchLoop (eop : FkEltOp K) (key : K) : Nat → Option N → Option (Option N)
  | 0, _ => none
  | _ + 1, none => some none
  | fuel + 1, some nd =>
      if heap.live nd then
        if eop.keyCmp (heap.elt nd).1 key = 0 then some (some nd)
        else searchLoop eop key fuel (heap.store nd).next
      else none

omit [DecidableEq N] in
/-- `none` is a bucket outside of the array, or a bad chain. -/
def fkDictSearch (eop : FkEltOp K) (key : K) : Option (Nat × Option N) :=
  let idx := (eop.keyHash key).toNat &&& heap.sizeMask
  match heap.buckets[idx]? with
  | none => none
  | some none => some (idx, none)
  | some (some lst) =>
      (heap.searchLoop eop key (lst.len + 1) lst.head).map fun found => (idx, found)

def fkDictRemove (eop : FkEltOp K) (key : K) : Option (FkDictRt × DictHeap N K V) :=
  (heap.fkDictSearch eop key).bind fun (idx, found) =>
    match found with
    | none => some (.err, heap)
    | some nd =>
        match heap.buckets[idx]? with
        | some (some lst) =>
            let (store, lst) := RawList.fkRawlistRemoveAnyone heap.store lst nd
            some (.ok, { heap with
              store := store
              buckets := heap.buckets.set idx (some lst)
              live := Function.update heap.live nd false
              used := heap.used - 1 })
        | _ => none

end DictHeap

def nodeIterBegin : NodeIter N := ⟨-1, none, none⟩

namespace DictHeap

variable (heap : DictHeap N K V)

omit [DecidableEq N] in
/-- `iter->buckets[iter->idx]`. -/
def bucketAt (idx : Int) : Option (Option (RawList N)) :=
  if idx < 0 then none else heap.buckets[idx.toNat]?

omit [DecidableEq N] in
/-- "found a non-null element": the next one is saved. -/
def returned (idx : Int) (nd : N) : Option (Option N × NodeIter N) :=
  if heap.live nd then some (some nd, ⟨idx, some nd, (heap.store nd).next⟩) else none

omit [DecidableEq N] in
/-- The loop of `fk_dict_iter_next`.  `none`: it reads outside of the buckets or from a node
that is freed, or it does not end. -/
def iterLoop : Nat → NodeIter N → Option (Option N × NodeIter N)
  | 0, _ => none
  | fuel + 1, iter =>
      match iter.cur with
      | none =>
          let idx := iter.idx + 1
          if idx = heap.size then some (none, { iter with idx := idx })
          else
            match heap.bucketAt idx with
            | none => none
            | some none => iterLoop fuel { iter with idx := idx }
            | some (some elst) =>
                match elst.head with
                | none => iterLoop fuel { iter with idx := idx }
                | some nd => heap.returned idx nd
      | some _ =>
          match iter.next with
          | none => iterLoop fuel { iter with cur := none }
          | some nd => heap.returned iter.idx nd

omit [DecidableEq N] in
def fkDictIterNext (iter : NodeIter N) : Option (Option N × NodeIter N) :=
  heap.iterLoop (heap.size + 2) iter

/-- What calls of `fk_dict_iter_next` return, up to the first null pointer and at most so many.
After each, the element may be removed; `chosen` tells whether it is. -/
def visitNodes (eop : FkEltOp K) :
    (Nat → Bool) → Nat → DictHeap N K V → NodeIter N →
    Option (List (Option (K × V)) × DictHeap N K V)
  | _, 0, heap, _ => some ([], heap)
  | chosen, calls + 1, heap, iter =>
      match heap.fkDictIterNext iter with
      | none => none
      | some (none, _) => some ([none], heap)
      | some (some nd, iter) =>
          let elt := heap.elt nd
          let removed := if chosen 0 then (heap.fkDictRemove eop elt.1).map Prod.snd else some heap
          removed.bind fun heap =>
            (visitNodes eop (fun count => chosen (count + 1)) calls heap iter).map
              fun (later, heap) => (some elt :: later, heap)

omit [DecidableEq N] in
/-- The loop of `fk_dict_random`, with the element of the last round. -/
def randomLoop : Nat → NodeIter N → Option N → Option N
  | 0, _, elt => elt
  | tryTimes + 1, iter, _ =>
      (heap.fkDictIterNext iter).bind fun (elt, iter) => randomLoop tryTimes iter elt

omit [DecidableEq N] in
/-- `none` is a remainder by zero, an element that was never set, or no element. -/
def fkDictRandom (number : Nat) : Option (K × V) :=
  if heap.used = 0 then none
  else (heap.randomLoop (toInt32 (number % heap.used + 1 : Nat)).toNat nodeIterBegin none).map
    heap.elt

omit [DecidableEq N] in
/-- The dictionary, when the nodes of its buckets are given. -/
def value (ids : List (Option (List N))) : FkDict K V where
  size := heap.size
  sizeMask := heap.sizeMask
  used := heap.used
  limit := heap.limit
  buckets := mapSlots heap.elt ids

omit [DecidableEq N] in
/-- The nodes of the buckets: every list holds its nodes, which are live and in no other list. -/
structure Layout (heap : DictHeap N K V) (ids : List (Option (List N))) : Prop where
  shape : heap.buckets.map Option.isSome = ids.map Option.isSome
  holds : ∀ i lst, heap.buckets[i]? = some (some lst) → RawList.Holds lst heap.store (chain ids i)
  live : ∀ nd ∈ contents ids, heap.live nd = true
  nodup : (contents ids).Nodup

omit [DecidableEq N] in
/-- The memory holds the dictionary. -/
def Represents (heap : DictHeap N K V) (dct : FkDict K V) : Prop :=
  ∃ ids, heap.Layout ids ∧ heap.value ids = dct

variable {heap} {ids : List (Option (List N))} {eop : FkEltOp K} {i : Nat}
  {front rest : List N} {nd : N}

namespace Layout

omit [DecidableEq N] in
theorem length (layout : heap.Layout ids) : heap.buckets.length = ids.length := by
  have same := congrArg List.length layout.shape
  rwa [List.length_map, List.length_map] at same

omit [DecidableEq N] in
/-- A bucket that is absent holds no node. -/
theorem absent (layout : heap.Layout ids) (missing : heap.buckets[i]? = some none) :
    chain ids i = [] := by
  have same := congrArg (·[i]?) layout.shape
  simp only [List.getElem?_map, missing, Option.map_some] at same
  cases here : ids[i]? with
  | none => simp [chain, List.getD, here]
  | some slot =>
      cases slot with
      | none => simp [chain, List.getD, here]
      | some nodes => simp [here] at same

omit [DecidableEq N] in
/-- A bucket with a node is a list of its nodes. -/
theorem present (layout : heap.Layout ids) (member : nd ∈ chain ids i) :
    ∃ lst, heap.buckets[i]? = some (some lst) ∧ RawList.Holds lst heap.store (chain ids i) := by
  have inside : i < heap.buckets.length := by
    rw [layout.length]
    exact inside_of_mem member
  cases here : heap.buckets[i] with
  | none =>
      rw [layout.absent ((List.getElem?_eq_getElem inside).trans (congrArg some here))] at member
      cases member
  | some lst =>
      have bucket : heap.buckets[i]? = some (some lst) :=
        (List.getElem?_eq_getElem inside).trans (congrArg some here)
      exact ⟨lst, bucket, layout.holds i lst bucket⟩

omit [DecidableEq N] in
theorem live_chain (layout : heap.Layout ids) (member : nd ∈ chain ids i) : heap.live nd = true :=
  layout.live nd (mem_contents_iff.mpr ⟨i, member⟩)

omit [DecidableEq N] in
theorem elements (heap : DictHeap N K V) (ids : List (Option (List N))) :
    (heap.value ids).elements = (contents ids).map heap.elt :=
  contents_mapSlots heap.elt

/-- The list of one bucket changes, in which a node is freed. -/
theorem set (layout : heap.Layout ids) (here : chain ids i = front ++ nd :: rest) {lst : RawList N}
    {store : NodeStore N} (holds : lst.Holds store (front ++ rest))
    (frame : ∀ other, other ∉ front ++ nd :: rest → store other = heap.store other) (used : Nat) :
    DictHeap.Layout { heap with
        store := store
        buckets := heap.buckets.set i (some lst)
        live := Function.update heap.live nd false
        used := used } (ids.set i (some (front ++ rest))) := by
  have inside : i < ids.length :=
    inside_of_mem (here ▸ List.mem_append_right _ (List.mem_cons_self ..))
  obtain ⟨before, behind, whole, changed⟩ := contents_split inside
  rw [here] at whole
  have perm : (contents ids).Perm (nd :: contents (ids.set i (some (front ++ rest)))) := by
    rw [whole, changed]
    simp only [List.append_assoc, List.cons_append]
    exact (List.perm_middle.append_left before).trans List.perm_middle
  obtain ⟨absent, nodup⟩ := List.nodup_cons.mp (perm.nodup layout.nodup)
  refine ⟨?_, fun j other bucket => ?_, fun other member => ?_, nodup⟩
  · simp only [List.map_set, layout.shape, Option.isSome_some]
  · by_cases same : i = j
    · subst same
      rw [chain_set_same inside]
      rw [List.getElem?_set_self (by rw [layout.length]; exact inside)] at bucket
      cases bucket
      exact holds
    · rw [chain_set_other same]
      rw [List.getElem?_set_ne same] at bucket
      refine (layout.holds j other bucket).congr fun node member => frame node fun inChain => ?_
      rw [← here] at inChain
      exact chain_disjoint layout.nodup same inChain member
  · have differs : other ≠ nd := fun same => absent (same ▸ member)
    exact (Function.update_of_ne differs ..).trans
      (layout.live other (perm.mem_iff.mpr (List.mem_cons_of_mem _ member)))

end Layout

omit [DecidableEq N] in
theorem searchLoop_eq {key : K} {fuel : Nat} {head tail : Option N}
    (linked : Linked heap.store head tail (front ++ rest))
    (live : ∀ nd ∈ rest, heap.live nd = true) (enough : rest.length < fuel) :
    heap.searchLoop eop key fuel rest.head? = some
      (rest.find? fun nd => eop.keyCmp (heap.elt nd).1 key == 0) := by
  induction fuel generalizing front rest with
  | zero => exact absurd enough (Nat.not_lt_zero _)
  | succ fuel ih =>
      cases rest with
      | nil => rfl
      | cons nd rest =>
          obtain ⟨here, others⟩ := List.forall_mem_cons.mp live
          have further : Linked heap.store head tail (front ++ [nd] ++ rest) := by
            rwa [List.append_assoc, List.singleton_append]
          rw [List.head?_cons, searchLoop, if_pos here, linked.next_eq,
            ih further others (Nat.lt_of_succ_lt_succ enough), List.find?_cons]
          by_cases equal : eop.keyCmp (heap.elt nd).1 key = 0
          · rw [if_pos equal, beq_iff_eq.mpr equal]
          · rw [if_neg equal, beq_eq_false_iff_ne.mpr equal]

/-- The first item with a property. -/
theorem find_split {A : Type} {wanted : A → Bool} {front back : List A} {item : A}
    (before : ∀ other ∈ front, wanted other = false) (here : wanted item = true) :
    (front ++ item :: back).find? wanted = some item ∧
      (front ++ item :: back).findIdx? wanted = some front.length := by
  induction front with
  | nil => simp [here, List.findIdx?_cons]
  | cons first front ih =>
      obtain ⟨other, others⟩ := List.forall_mem_cons.mp before
      obtain ⟨found, index⟩ := ih others
      simp [other, found, index, List.findIdx?_cons]

/-- An element of the dictionary is removed by its key. -/
theorem Layout.remove (lawful : eop.Lawful) (layout : heap.Layout ids)
    (wf : (heap.value ids).Wf eop) (here : chain ids i = front ++ nd :: rest) :
    ∃ after, heap.fkDictRemove eop (heap.elt nd).1 = some (.ok, after) ∧
      after.Layout (ids.set i (some (front ++ rest))) ∧
      after.value (ids.set i (some (front ++ rest))) =
        (Freekick.fkDictRemove eop (heap.value ids) (heap.elt nd).1).2 ∧
      after.elt = heap.elt ∧ after.size = heap.size := by
  have member : nd ∈ chain ids i := here ▸ List.mem_append_right _ (List.mem_cons_self ..)
  obtain ⟨lst, bucket, holds⟩ := layout.present member
  have chained : chain (heap.value ids).buckets i = (front.map heap.elt) ++ heap.elt nd ::
      rest.map heap.elt := by
    change chain (mapSlots heap.elt ids) i = _
    rw [chain_mapSlots, here, List.map_append, List.map_cons]
  have index : (eop.keyHash (heap.elt nd).1).toNat &&& heap.sizeMask = i :=
    wf.placed i (heap.elt nd) (chained ▸ List.mem_append_right _ (List.mem_cons_self ..))
  have distinct : (chain (heap.value ids).buckets i).Pairwise fun first second =>
      ¬ eop.Same first.1 second.1 :=
    wf.distinct.sublist (chain_sublist ..)
  rw [chained] at distinct
  have others : ∀ other ∈ front, (eop.keyCmp (heap.elt other).1 (heap.elt nd).1 == 0) = false := by
    intro other inFront
    rw [beq_eq_false_iff_ne]
    exact (List.pairwise_append.mp distinct).2.2 (heap.elt other) (List.mem_map_of_mem inFront)
      (heap.elt nd) (List.mem_cons_self ..)
  have equal : (eop.keyCmp (heap.elt nd).1 (heap.elt nd).1 == 0) = true :=
    beq_iff_eq.mpr (lawful.equiv.refl _)
  have searched : heap.fkDictSearch eop (heap.elt nd).1 = some (i, some nd) := by
    have whole : Linked heap.store lst.head lst.tail ([] ++ chain ids i) := holds.linked
    have enough : (chain ids i).length < lst.len + 1 := by
      rw [holds.len]
      exact Nat.lt_succ_self _
    have found : heap.searchLoop eop (heap.elt nd).1 (lst.len + 1) (chain ids i).head? = _ :=
      searchLoop_eq whole (fun _ inChain => layout.live_chain inChain) enough
    rw [← (linked_iff.mp holds.linked).1, here, (find_split others equal).1] at found
    simp only [DictHeap.fkDictSearch, index, bucket]
    rw [found]
    rfl
  obtain ⟨after, _, frame⟩ := fkRawlistRemoveAnyone_split (here ▸ holds)
  refine ⟨_, ?_, layout.set here after frame (heap.used - 1), ?_, rfl, rfl⟩
  · rw [DictHeap.fkDictRemove, searched]
    simp only [Option.bind_some, bucket]
  · have position : Freekick.fkDictSearch eop (heap.value ids) (heap.elt nd).1 =
        (i, some front.length) := by
      have others' : ∀ elt ∈ front.map heap.elt, (eop.keyCmp elt.1 (heap.elt nd).1 == 0) = false :=
        List.forall_mem_map.mpr others
      have found := (@find_split _ _ _ (rest.map heap.elt) _ others' equal).2
      rw [List.length_map] at found
      change ((eop.keyHash (heap.elt nd).1).toNat &&& heap.sizeMask, (chain (heap.value ids).buckets
        ((eop.keyHash (heap.elt nd).1).toNat &&& heap.sizeMask)).findIdx? _) = _
      rw [index, chained, found]
    rw [Freekick.fkDictRemove, position]
    have erased : (front.map heap.elt ++ heap.elt nd :: rest.map heap.elt).eraseIdx front.length =
        (front ++ rest).map heap.elt := by
      rw [List.eraseIdx_append_of_length_le (by rw [List.length_map]), List.length_map,
        Nat.sub_self, List.eraseIdx_cons_zero, List.map_append]
    dsimp only
    rw [chained, erased, DictHeap.value, mapSlots_set]
    rfl

end DictHeap

end Freekick
