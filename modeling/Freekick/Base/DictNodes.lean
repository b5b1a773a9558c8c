import Freekick.Base.DictHeap

/-!
# The operations of a dictionary on its nodes

`fk_dict.c` as it moves nodes between raw lists: an element is allocated, linked into a bucket,
carried to a larger table, unlinked and freed.  Every operation does to the elements what it
does to the dictionary that the nodes stand for, and leaves the memory outside of the dictionary
alone.
-/

namespace Freekick

open Lib.Buckets Lib.Nodes

/-- A key or a value that a dictionary copies (`key_copy`, `val_copy`) or frees. -/
inductive EltRef (K V : Type) where
  | key (key : K)
  | val (value : V)
  deriving DecidableEq, Repr

/-- The keys and values of elements. -/
def refs {K V : Type} (elts : List (K × V)) : List (EltRef K V) :=
  elts.flatMap fun elt => [.key elt.1, .val elt.2]

section Refs

variable {K V : Type}

theorem refs_append (first second : List (K × V)) :
    refs (first ++ second) = refs first ++ refs second := List.flatMap_append ..

theorem refs_cons (elt : K × V) (elts : List (K × V)) : refs
    (elt :: elts) = .key elt.1 :: .val elt.2 :: refs elts := rfl

end Refs

/-- The operations that may allocate an element. -/
def DictOp.allocates {K V : Type} : DictOp K V → Bool
  | .add _ _ | .replace _ _ => true
  | .remove _ | .get _ | .empty => false

/-- What an operation returns, the memory that it leaves, and what it has copied and freed. -/
structure DictDone (N K V A : Type) where
  answer : A
  heap : DictHeap N K V
  copied : List (EltRef K V)
  freed : List (EltRef K V)

variable {N K V : Type} [DecidableEq N]

namespace DictHeap

section Code

variable (heap : DictHeap N K V)

omit [DecidableEq N] in
def fkDictInit : DictHeap N K V :=
  { heap with
    size := fkDictInitSize
    sizeMask := fkDictInitSize - 1
    limit := fkDictInitSize >>> 1
    used := 0
    buckets := List.replicate fkDictInitSize none }

/-- A chain is freed from its head.  `none`: it reads a node that is freed, or it does not end. -/
def clearLoop : Nat → DictHeap N K V → RawList N → Option (DictHeap N K V × List (EltRef K V))
  | 0, _, _ => none
  | fuel + 1, heap, lst =>
      match lst.head with
      | none => some (heap, [])
      | some nd =>
          if heap.live nd then
            let (store, lst) := RawList.fkRawlistRemoveAnyone heap.store lst nd
            let heap :=
              { heap with
                store := store
                live := Function.update heap.live nd false
                used := heap.used - 1 }
            (clearLoop fuel heap lst).map fun (after, freed) =>
              (after, .key (heap.elt nd).1 :: .val (heap.elt nd).2 :: freed)
          else none

def clearBuckets : List (Option (RawList N)) → DictHeap N K V →
    Option (DictHeap N K V × List (EltRef K V))
  | [], heap => some (heap, [])
  | none :: slots, heap => clearBuckets slots heap
  | some lst :: slots, heap =>
      (clearLoop (lst.len + 1) heap lst).bind fun (heap, freed) =>
        (clearBuckets slots heap).map fun (after, more) => (after, freed ++ more)

def fkDictClear : Option (DictHeap N K V × List (EltRef K V)) :=
  (clearBuckets heap.buckets heap).map fun (after, freed) => ({ after with buckets := [] }, freed)

def fkDictEmpty : Option (DictHeap N K V × List (EltRef K V)) :=
  heap.fkDictClear.map fun (after, freed) => (after.fkDictInit, freed)

/-- A node is inserted at the head of a bucket, which is created when it is absent. -/
def insertAt (idx : Nat) (nd : N) : Option (DictHeap N K V) :=
  heap.buckets[idx]?.bind fun slot =>
    (RawList.fkRawlistInsertHead heap.store (slot.getD RawList.fkRawlistInit) nd).map
      fun (store, lst) =>
      { heap with store := store, buckets := heap.buckets.set idx (some lst) }

/-- A chain is emptied from its head into the new buckets. -/
def rehashLoop (eop : FkEltOp K) (newSize : Nat) :
    Nat → DictHeap N K V → RawList N → Option (DictHeap N K V)
  | 0, _, _ => none
  | fuel + 1, heap, lst =>
      match lst.head with
      | none => some heap
      | some nd =>
          if heap.live nd then
            let (store, lst) := RawList.fkRawlistRemoveAnyone heap.store lst nd
            let idx := (eop.keyHash (heap.elt nd).1).toNat &&& (newSize - 1)
            ({ heap with store := store }.insertAt idx nd).bind fun heap =>
              rehashLoop eop newSize fuel heap lst
          else none

def rehashBuckets (eop : FkEltOp K) (newSize : Nat) :
    List (Option (RawList N)) → DictHeap N K V → Option (DictHeap N K V)
  | [], heap => some heap
  | none :: slots, heap => rehashBuckets eop newSize slots heap
  | some lst :: slots, heap =>
      (rehashLoop eop newSize (lst.len + 1) heap lst).bind fun heap =>
        rehashBuckets eop newSize slots heap

def fkDictStretch (eop : FkEltOp K) : Option (DictHeap N K V) :=
  if heap.used < heap.limit then some heap
  else
    let newSize := heap.size <<< 1
    (rehashBuckets eop newSize heap.buckets
      { heap with buckets := List.replicate newSize none }).map fun heap =>
      { heap with size := newSize, sizeMask := newSize - 1, limit := newSize >>> 1 }

/-- `fk_dict_add`, when `fk_elt_create` returns the given node. -/
def fkDictAdd (eop : FkEltOp K) (key : K) (value : V) (nd : N) : Option (DictDone N K V FkDictRt) :=
  (if heap.used = heap.limit then heap.fkDictStretch eop else some heap).bind fun heap =>
    (heap.fkDictSearch eop key).bind fun (idx, found) =>
      match found with
      | some _ => some ⟨.err, heap, [], []⟩
      | none =>
          let heap :=
            { heap with
              elt := Function.update heap.elt nd (key, value)
              live := Function.update heap.live nd true }
          (heap.insertAt idx nd).map fun heap =>
            ⟨.ok, { heap with used := heap.used + 1 }, [.key key, .val value], []⟩

def fkDictReplace (eop : FkEltOp K) (key : K) (value : V) (nd : N) : Option (DictDone N K V Nat) :=
  (heap.fkDictAdd eop key value nd).bind fun added =>
    match added.answer with
    | .ok => some ⟨0, added.heap, added.copied, added.freed⟩
    | .err =>
        (added.heap.fkDictSearch eop key).bind fun (_, found) =>
          found.map fun elt =>
            let old := added.heap.elt elt
            ⟨1, { added.heap with elt := Function.update added.heap.elt elt (old.1, value) },
              added.copied ++ [.val value], added.freed ++ [.val old.2]⟩

omit [DecidableEq N] in
def fkDictGet (eop : FkEltOp K) (key : K) : Option (Option V) :=
  (heap.fkDictSearch eop key).map fun (_, found) => found.map fun elt => (heap.elt elt).2

omit [DecidableEq N] in
/-- What `fk_dict_remove` frees. -/
def removedRefs (eop : FkEltOp K) (key : K) : List (EltRef K V) :=
  match heap.fkDictSearch eop key with
  | some (_, some nd) => refs [heap.elt nd]
  | _ => []

/-- A call of an operation, with the node for an element. -/
def call (eop : FkEltOp K) (nd : N) : DictOp K V → Option (DictDone N K V (DictAnswer V))
  | .add key value =>
      (heap.fkDictAdd eop key value nd).map fun done =>
        ⟨.code done.answer, done.heap, done.copied, done.freed⟩
  | .replace key value =>
      (heap.fkDictReplace eop key value nd).map fun done =>
        ⟨.replaced done.answer, done.heap, done.copied, done.freed⟩
  | .remove key =>
      (heap.fkDictRemove eop key).map fun (rt, after) =>
        ⟨.code rt, after, [], heap.removedRefs eop key⟩
  | .get key => (heap.fkDictGet eop key).map fun found => ⟨.found found, heap, [], []⟩
  | .empty => heap.fkDictEmpty.map fun (after, freed) => ⟨.emptied, after, [], freed⟩

end Code

/-! ## Searching -/

omit [DecidableEq N] in
/-- A search meets no item, or it stops at the first one. -/
theorem find_cases {A : Type} (wanted : A → Bool) (items : List A) :
    (∀ item ∈ items, wanted item = false) ∨
      ∃ front item back, items = front ++ item :: back ∧ (∀ other ∈ front, wanted other = false) ∧
        wanted item = true := by
  induction items with
  | nil => exact .inl fun item member => absurd member List.not_mem_nil
  | cons first rest ih =>
      cases here : wanted first with
      | true =>
          exact .inr ⟨[], first, rest, rfl,
            fun other member => absurd member List.not_mem_nil, here⟩
      | false =>
          rcases ih with nowhere | ⟨front, item, back, rfl, before, found⟩
          · exact .inl (List.forall_mem_cons.mpr ⟨here, nowhere⟩)
          · exact .inr ⟨first :: front, item, back, rfl,
              List.forall_mem_cons.mpr ⟨here, before⟩, found⟩

variable {heap : DictHeap N K V} {ids : List (Option (List N))} {eop : FkEltOp K} {key : K}
  {value : V} {nd : N} {idx : Nat}

/-- What a search finds: no node with the key, or the first node of a chain that has it, with its
place. -/
inductive Searched (heap : DictHeap N K V) (ids : List (Option (List N))) (eop : FkEltOp K)
    (key : K) : Prop where
  | absent (idx : Nat) (inside : idx < ids.length)
      (place : (eop.keyHash key).toNat &&& heap.sizeMask = idx)
      (nodes : heap.fkDictSearch eop key = some (idx, none))
      (elements : Freekick.fkDictSearch eop (heap.value ids) key = (idx, none))
  | found (idx : Nat) (front : List N) (nd : N) (back : List N)
      (chained : chain ids idx = front ++ nd :: back)
      (nodes : heap.fkDictSearch eop key = some (idx, some nd))
      (elements : Freekick.fkDictSearch eop (heap.value ids) key = (idx, some front.length))

omit [DecidableEq N] in
theorem Layout.searched (layout : heap.Layout ids) (wf : (heap.value ids).Wf eop) (key : K) :
    Searched heap ids eop key := by
  have inside : (eop.keyHash key).toNat &&& heap.sizeMask < ids.length := by
    have size := wf.size_ge
    have length : ids.length = heap.size := (List.length_map ..).symm.trans wf.length
    have mask : heap.sizeMask = heap.size - 1 := wf.mask
    rw [length, mask]
    exact and_pred_lt (Nat.lt_of_lt_of_le (show 0 < 4 by decide) size) _
  generalize place : (eop.keyHash key).toNat &&& heap.sizeMask = idx at inside
  have nodes : heap.fkDictSearch eop key = some
      (idx, (chain ids idx).find? fun nd => eop.keyCmp (heap.elt nd).1 key == 0) := by
    have bound : idx < heap.buckets.length := by
      rw [layout.length]
      exact inside
    unfold DictHeap.fkDictSearch
    dsimp only
    rw [place]
    cases here : heap.buckets[idx] with
    | none =>
        have bucket : heap.buckets[idx]? = some none :=
          (List.getElem?_eq_getElem bound).trans (congrArg some here)
        rw [layout.absent bucket, bucket]
        rfl
    | some lst =>
        have bucket : heap.buckets[idx]? = some (some lst) :=
          (List.getElem?_eq_getElem bound).trans (congrArg some here)
        have holds := layout.holds idx lst bucket
        have whole : Linked heap.store lst.head lst.tail ([] ++ chain ids idx) := holds.linked
        have enough : (chain ids idx).length < lst.len + 1 := by
          rw [holds.len]
          exact Nat.lt_succ_self _
        have found : heap.searchLoop eop key (lst.len + 1) (chain ids idx).head? = _ :=
          searchLoop_eq whole (fun _ member => layout.live_chain member) enough
        rw [bucket]
        dsimp only
        rw [(linked_iff.mp holds.linked).1, found, Option.map_some]
  have elements : Freekick.fkDictSearch eop (heap.value ids) key =
      (idx, (chain ids idx).findIdx? fun nd => eop.keyCmp (heap.elt nd).1 key == 0) := by
    unfold Freekick.fkDictSearch
    change ((eop.keyHash key).toNat &&& heap.sizeMask,
      (chain (mapSlots heap.elt ids) ((eop.keyHash key).toNat &&& heap.sizeMask)).findIdx? _) = _
    rw [place, chain_mapSlots, List.findIdx?_map]
    rfl
  rcases find_cases (fun nd => eop.keyCmp (heap.elt nd).1 key == 0) (chain ids idx) with nowhere |
      ⟨front, nd, back, chained, before, found⟩
  · refine .absent idx inside place ?_ ?_
    · rw [nodes, List.find?_eq_none.mpr fun nd member => by
        rw [nowhere nd member]; exact Bool.false_ne_true]
    · rw [elements, List.findIdx?_eq_none_iff.mpr nowhere]
  · obtain ⟨first, position⟩ := @find_split _ _ _ back _ before found
    refine .found idx front nd back chained ?_ ?_
    · rw [nodes, chained, first]
    · rw [elements, chained, position]

/-! ## Inserting -/

omit [DecidableEq N] in
/-- What happens to nodes of no bucket does not matter. -/
theorem Layout.congr (layout : heap.Layout ids) {store : NodeStore N} {live : N → Bool}
    (same : ∀ nd ∈ contents ids, store nd = heap.store nd ∧ live nd = heap.live nd) :
    DictHeap.Layout { heap with store := store, live := live } ids where
  shape := layout.shape
  holds i lst bucket := (layout.holds i lst bucket).congr fun nd member =>
    (same nd (mem_contents_iff.mpr ⟨i, member⟩)).1
  live nd member := (same nd member).2.trans (layout.live nd member)
  nodup := layout.nodup

omit [DecidableEq N] in
/-- The buckets behind the first one. -/
theorem Layout.tail {slots : List (Option (RawList N))} {slot : Option (RawList N)}
    {nodes : Option (List N)}
    (layout : DictHeap.Layout { heap with buckets := slot :: slots } (nodes :: ids)) :
    DictHeap.Layout { heap with buckets := slots } ids where
  shape := (List.cons.inj layout.shape).2
  holds i lst bucket := layout.holds (i + 1) lst bucket
  live nd member := layout.live nd (List.mem_append_right _ member)
  nodup := (List.nodup_append.mp layout.nodup).2.1

omit [DecidableEq N] in
/-- The first bucket, which holds nodes of no other one. -/
theorem Layout.head {slots : List (Option (RawList N))} {lst : RawList N} {nodes : Option (List N)}
    (layout : DictHeap.Layout { heap with buckets := some lst :: slots } (nodes :: ids)) :
    lst.Holds heap.store (nodes.getD []) ∧ (∀ nd ∈ nodes.getD [], heap.live nd = true) ∧
      (nodes.getD []).Disjoint (contents ids) :=
  ⟨layout.holds 0 lst rfl, fun nd member => layout.live nd (List.mem_append_left _ member),
    List.disjoint_of_nodup_append layout.nodup⟩

/-- A live node of no bucket becomes the first of one. -/
theorem Layout.insertAt (layout : heap.Layout ids) (inside : idx < ids.length)
    (new : nd ∉ contents ids) (live : heap.live nd = true) :
    ∃ store lst, heap.insertAt idx nd = some
      { heap with store := store, buckets := heap.buckets.set idx (some lst) } ∧
      DictHeap.Layout { heap with store := store, buckets := heap.buckets.set idx (some lst) }
        (ids.set idx (some (nd :: chain ids idx))) ∧
      ∀ other, other ≠ nd → other ∉ contents ids → store other = heap.store other := by
  have bound : idx < heap.buckets.length := by
    rw [layout.length]
    exact inside
  have bucket : heap.buckets[idx]? = some heap.buckets[idx] := List.getElem?_eq_getElem bound
  have holds : (heap.buckets[idx].getD RawList.fkRawlistInit).Holds heap.store (chain ids idx) := by
    cases here : heap.buckets[idx] with
    | none =>
        rw [layout.absent (bucket.trans (congrArg some here))]
        exact ⟨linked_nil heap.store, rfl⟩
    | some lst => exact layout.holds idx lst (bucket.trans (congrArg some here))
  have outside : ∀ {other}, other ∉ contents ids → other ∉ chain ids idx :=
    fun absent member => absent (mem_contents_iff.mpr ⟨idx, member⟩)
  obtain ⟨store, lst, inserted, after, frame⟩ := fkRawlistInsertHead_spec holds (outside new)
  have perm : (contents (ids.set idx (some (nd :: chain ids idx)))).Perm (nd :: contents ids) :=
    @contents_push _ ids (fun _ => idx) nd inside
  refine ⟨store, lst, ?_, ⟨?_, fun j other found => ?_, fun other member => ?_, ?_⟩,
    fun other apart absent => frame other apart (outside absent)⟩
  · rw [DictHeap.insertAt, bucket, Option.bind_some, inserted]
    rfl
  · simp only [List.map_set, layout.shape, Option.isSome_some]
  · by_cases same : idx = j
    · subst same
      rw [chain_set_same inside]
      rw [List.getElem?_set_self bound] at found
      cases found
      exact after
    · rw [chain_set_other same]
      rw [List.getElem?_set_ne same] at found
      refine (layout.holds j other found).congr fun node member => frame node ?_ ?_
      · rintro rfl
        exact new (mem_contents_iff.mpr ⟨j, member⟩)
      · exact fun inChain => chain_disjoint layout.nodup same inChain member
  · rcases List.mem_cons.mp (perm.mem_iff.mp member) with rfl | old
    · exact live
    · exact layout.live other old
  · exact perm.nodup_iff.mpr (List.nodup_cons.mpr ⟨new, layout.nodup⟩)

/-! ## Growing -/

omit [DecidableEq N] in
/-- The nodes are in other buckets, and nothing else has changed. -/
structure Carries (heap : DictHeap N K V) (ids : List (Option (List N))) (after : DictHeap N K V)
    (later : List (Option (List N))) : Prop where
  layout : after.Layout later
  elt : after.elt = heap.elt
  live : after.live = heap.live
  perm : (contents later).Perm (contents ids)
  frame : ∀ nd ∉ contents ids, after.store nd = heap.store nd

section Rehash

variable {newSize fuel : Nat} {lst : RawList N} {nodes : List N}

theorem rehashLoop_spec (layout : heap.Layout ids)
    (fits : ∀ key, (eop.keyHash key).toNat &&& (newSize - 1) < ids.length)
    (holds : lst.Holds heap.store nodes) (live : ∀ nd ∈ nodes, heap.live nd = true)
    (apart : nodes.Disjoint (contents ids)) (enough : nodes.length < fuel) :
    ∃ store buckets, rehashLoop eop newSize fuel heap lst = some
      { heap with store := store, buckets := buckets } ∧
      DictHeap.Layout { heap with store := store, buckets := buckets }
        (nodes.foldl (push fun nd => eop.place (newSize - 1) (heap.elt nd)) ids) ∧
      ∀ other, other ∉ nodes → other ∉ contents ids → store other = heap.store other := by
  induction nodes generalizing heap ids lst fuel with
  | nil =>
      obtain ⟨fuel, rfl⟩ : ∃ more, fuel = more + 1 :=
        ⟨fuel - 1, by rw [List.length_nil] at enough; omega⟩
      have empty : lst.head = none := (linked_iff.mp holds.linked).1
      refine ⟨heap.store, heap.buckets, ?_, layout, fun other _ _ => rfl⟩
      rw [rehashLoop, empty]
  | cons nd rest ih =>
      obtain ⟨fuel, rfl⟩ : ∃ more, fuel = more + 1 :=
        ⟨fuel - 1, by rw [List.length_cons] at enough; omega⟩
      have first : lst.head = some nd := (linked_iff.mp holds.linked).1
      have nodup := List.nodup_cons.mp holds.linked.nodup
      obtain ⟨here, others⟩ := List.forall_mem_cons.mp live
      obtain ⟨new, later⟩ := List.disjoint_cons_left.mp apart
      have whole : lst.Holds heap.store ([] ++ nd :: rest) := holds
      obtain ⟨removed, _, frame⟩ := fkRawlistRemoveAnyone_split whole
      generalize unlinked : RawList.fkRawlistRemoveAnyone heap.store lst nd = pair at removed frame
      have moved : DictHeap.Layout { heap with store := pair.1 } ids :=
        @Layout.congr _ _ _ heap ids layout pair.1 heap.live fun other member =>
          ⟨frame other fun inside => apart inside member, rfl⟩
      obtain ⟨store, into, inserted, placed, kept⟩ := moved.insertAt (fits (heap.elt nd).1) new here
      have perm := @contents_push _ ids (fun nd => eop.place (newSize - 1) (heap.elt nd)) nd
        (fits (heap.elt nd).1)
      have still : pair.2.Holds store rest := removed.congr fun other member =>
        kept other (fun same => nodup.1 (same ▸ member)) (later member)
      have away : rest.Disjoint
          (contents (push (fun nd => eop.place (newSize - 1) (heap.elt nd)) ids nd)) := by
        intro other member inside
        rcases List.mem_cons.mp (perm.mem_iff.mp inside) with rfl | old
        · exact nodup.1 member
        · exact later member old
      have fitsStill : ∀ key, (eop.keyHash key).toNat &&& (newSize - 1) <
          (push (fun nd => eop.place (newSize - 1) (heap.elt nd)) ids nd).length := by
        intro key
        rw [length_push]
        exact fits key
      obtain ⟨final, buckets, ran, last, unchanged⟩ :=
        ih placed fitsStill still others away (Nat.lt_of_succ_lt_succ enough)
      refine ⟨final, buckets, ?_, last, fun other outside absent => ?_⟩
      · rw [rehashLoop, first]
        dsimp only
        rw [if_pos here, unlinked, inserted, Option.bind_some]
        exact ran
      · rw [List.mem_cons, not_or] at outside
        have notIn : other ∉ contents
            (push (fun nd => eop.place (newSize - 1) (heap.elt nd)) ids nd) := by
          rw [perm.mem_iff, List.mem_cons, not_or]
          exact ⟨outside.1, absent⟩
        rw [unchanged other outside.2 notIn]
        refine (kept other outside.1 absent).trans (frame other ?_)
        exact fun inside => (List.mem_cons.mp inside).elim outside.1 outside.2

theorem rehashBuckets_spec {slots : List (Option (RawList N))} {olds : List (Option (List N))}
    (old : DictHeap.Layout { heap with buckets := slots } olds) (layout : heap.Layout ids)
    (fits : ∀ key, (eop.keyHash key).toNat &&& (newSize - 1) < ids.length)
    (apart : (contents olds).Disjoint (contents ids)) :
    ∃ store buckets, rehashBuckets eop newSize slots heap = some
      { heap with store := store, buckets := buckets } ∧
      DictHeap.Layout { heap with store := store, buckets := buckets }
        ((contents olds).foldl (push fun nd => eop.place (newSize - 1) (heap.elt nd)) ids) ∧
      ∀ other, other ∉ contents olds → other ∉ contents ids → store other = heap.store other := by
  induction slots generalizing heap ids olds with
  | nil =>
      obtain rfl : olds = [] := List.eq_nil_of_map_eq_nil old.shape.symm
      exact ⟨heap.store, heap.buckets, rfl, layout, fun other _ _ => rfl⟩
  | cons slot slots ih =>
      cases olds with
      | nil => cases old.shape
      | cons nodes olds =>
          have whole : contents (nodes :: olds) = nodes.getD [] ++ contents olds := rfl
          rw [whole] at apart ⊢
          obtain ⟨apartFirst, apartRest⟩ := List.disjoint_append_left.mp apart
          cases slot with
          | none =>
              have nothing : nodes.getD [] = [] := old.absent (i := 0) rfl
              rw [nothing, List.nil_append]
              exact ih old.tail layout fits apartRest
          | some lst =>
              obtain ⟨holds, live, alone⟩ := old.head
              have enough : (nodes.getD []).length < lst.len + 1 := by
                rw [holds.len]
                exact Nat.lt_succ_self _
              obtain ⟨store, buckets, ran, placed, frame⟩ :=
                rehashLoop_spec layout fits holds live apartFirst enough
              have length := @length_foldl_push _ ids
                (fun nd => eop.place (newSize - 1) (heap.elt nd)) (nodes.getD [])
              have members : ∀ {other},
                  other ∈ contents ((nodes.getD []).foldl
                    (push fun nd => eop.place (newSize - 1) (heap.elt nd)) ids) ↔
                  other ∈ nodes.getD [] ∨ other ∈ contents ids := by
                intro other
                have perm := @contents_foldl_push _ ids
                  (fun nd => eop.place (newSize - 1) (heap.elt nd))
                  (fun nd => fits (heap.elt nd).1) (nodes.getD [])
                rw [perm.mem_iff, List.mem_append]
              have later : DictHeap.Layout { heap with store := store, buckets := slots } olds :=
                @Layout.congr _ _ _ { heap with buckets := slots } olds old.tail store heap.live
                  fun other member =>
                  ⟨frame other (fun inside => alone inside member) (apartRest member), rfl⟩
              have away : (contents olds).Disjoint
                  (contents ((nodes.getD []).foldl
                    (push fun nd => eop.place (newSize - 1) (heap.elt nd)) ids)) := by
                intro other member inside
                rcases members.mp inside with first | new
                · exact alone first member
                · exact apartRest member new
              obtain ⟨final, last, more, all, kept⟩ :=
                @ih { heap with store := store, buckets := buckets } _ olds later placed
                  (by rw [length]; exact fits) away
              refine ⟨final, last, ?_, ?_, fun other outside absent => ?_⟩
              · rw [rehashBuckets, ran, Option.bind_some]
                exact more
              · rw [List.foldl_append]
                exact all
              · rw [List.mem_append, not_or] at outside
                have notIn := mt members.mp (not_or.mpr ⟨outside.1, absent⟩)
                exact (kept other outside.2 notIn).trans (frame other outside.1 absent)

end Rehash

omit [DecidableEq N] in
theorem Carries.refl (layout : heap.Layout ids) : Carries heap ids heap ids :=
  ⟨layout, rfl, rfl, .refl _, fun _ _ => rfl⟩

omit [DecidableEq N] in
/-- Buckets that are all absent. -/
theorem layout_replicate (heap : DictHeap N K V) (count : Nat) :
    DictHeap.Layout { heap with buckets := List.replicate count none }
      (List.replicate count none) where
  shape := by rw [List.map_replicate, List.map_replicate, Option.isSome_none, Option.isSome_none]
  holds i lst bucket := absurd (List.eq_of_mem_replicate (List.mem_of_getElem? bucket))
    (Option.some_ne_none lst)
  live nd member := by
    rw [contents_replicate] at member
    cases member
  nodup := by
    rw [contents_replicate]
    exact List.nodup_nil

omit [DecidableEq N] in
theorem fkDictInit_layout (heap : DictHeap N K V) :
    heap.fkDictInit.Layout (List.replicate fkDictInitSize none) :=
  layout_replicate heap.fkDictInit fkDictInitSize

omit [DecidableEq N] in
theorem fkDictInit_value (heap : DictHeap N K V) :
    heap.fkDictInit.value (List.replicate fkDictInitSize none) = Freekick.fkDictInit :=
  congrArg (fun buckets => (⟨_, _, _, _, buckets⟩ : FkDict K V))
    (mapSlots_replicate heap.elt fkDictInitSize)

theorem Layout.stretch (layout : heap.Layout ids) (wf : (heap.value ids).Wf eop) :
    ∃ after later, heap.fkDictStretch eop = some after ∧ Carries heap ids after later ∧
      after.value later = Freekick.fkDictStretch eop (heap.value ids) := by
  unfold DictHeap.fkDictStretch Freekick.fkDictStretch
  by_cases room : heap.used < heap.limit
  · rw [if_pos room, if_pos (show (heap.value ids).used < (heap.value ids).limit from room)]
    exact ⟨heap, ids, rfl, .refl layout, rfl⟩
  · rw [if_neg room, if_neg (show ¬ (heap.value ids).used < (heap.value ids).limit from room)]
    dsimp only
    have size : 4 ≤ heap.size := wf.size_ge
    have same : (heap.value ids).size = heap.size := rfl
    rw [same]
    have positive : 0 < heap.size <<< 1 := by
      rw [Nat.shiftLeft_eq]
      omega
    generalize heap.size <<< 1 = newSize at positive
    have fits : ∀ key, (eop.keyHash key).toNat &&& (newSize - 1) <
        (List.replicate newSize (none : Option (List N))).length := by
      intro key
      rw [List.length_replicate]
      exact and_pred_lt positive _
    have nothing : contents (List.replicate newSize (none : Option (List N))) = [] :=
      contents_replicate newSize
    have apart : (contents ids).Disjoint
        (contents (List.replicate newSize (none : Option (List N)))) := by
      rw [nothing]
      exact List.disjoint_nil_right _
    obtain ⟨store, buckets, ran, placed, frame⟩ :=
      @rehashBuckets_spec _ _ _ _ { heap with buckets := List.replicate newSize none } _ eop newSize
        heap.buckets ids layout (layout_replicate heap newSize) fits apart
    rw [ran, Option.map_some]
    refine ⟨_, _, rfl, ⟨⟨placed.shape, placed.holds, placed.live, placed.nodup⟩, rfl, rfl, ?_, ?_⟩,
      ?_⟩
    · have perm := @contents_foldl_push _ (List.replicate newSize none)
        (fun nd => eop.place (newSize - 1) (heap.elt nd))
        (fun nd => fits (heap.elt nd).1) (contents ids)
      rwa [nothing, List.append_nil] at perm
    · intro nd outside
      exact frame nd outside (by rw [nothing]; exact List.not_mem_nil)
    · have mapped := mapSlots_foldl_push heap.elt (eop.place (newSize - 1)) (contents ids)
        (List.replicate newSize none)
      rw [mapSlots_replicate, ← contents_mapSlots, ← foldl_slots] at mapped
      exact congrArg (fun buckets => (⟨newSize, newSize - 1, heap.used, newSize >>> 1, buckets⟩ :
        FkDict K V)) mapped

/-- The table that `fk_dict_add` searches. -/
theorem Layout.room (lawful : eop.Lawful) (layout : heap.Layout ids)
    (wf : (heap.value ids).Wf eop) :
    ∃ after later, (if heap.used = heap.limit then heap.fkDictStretch eop else some heap) =
      some after ∧ Carries heap ids after later ∧
      after.value later = (if (heap.value ids).used = (heap.value ids).limit then
        Freekick.fkDictStretch eop (heap.value ids) else heap.value ids) ∧
      (after.value later).Wf eop := by
  have roomy := (fkDictAdd_room wf lawful).1
  by_cases full : heap.used = heap.limit
  · obtain ⟨after, later, stretched, carries, value⟩ := layout.stretch wf
    rw [if_pos (show (heap.value ids).used = (heap.value ids).limit from full)] at roomy ⊢
    rw [if_pos full]
    exact ⟨after, later, stretched, carries, value, by rwa [value]⟩
  · rw [if_neg (show (heap.value ids).used ≠ (heap.value ids).limit from full)] at roomy ⊢
    rw [if_neg full]
    exact ⟨heap, ids, rfl, .refl layout, rfl, roomy⟩

/-! ## Clearing -/

section Clear

variable {fuel : Nat} {lst : RawList N} {nodes : List N}

theorem clearLoop_spec (holds : lst.Holds heap.store nodes)
    (live : ∀ nd ∈ nodes, heap.live nd = true) (enough : nodes.length < fuel) :
    ∃ store alive used, clearLoop fuel heap lst =
        some ({ heap with store := store, live := alive, used := used },
          refs (nodes.map heap.elt)) ∧
      (∀ nd ∈ nodes, alive nd = false) ∧ ∀ nd ∉ nodes, store nd = heap.store nd ∧
        alive nd = heap.live nd := by
  induction nodes generalizing heap lst fuel with
  | nil =>
      obtain ⟨fuel, rfl⟩ : ∃ more, fuel = more + 1 :=
        ⟨fuel - 1, by rw [List.length_nil] at enough; omega⟩
      have empty : lst.head = none := (linked_iff.mp holds.linked).1
      refine ⟨heap.store, heap.live, heap.used, ?_, fun nd member => absurd member List.not_mem_nil,
        fun nd _ => ⟨rfl, rfl⟩⟩
      rw [clearLoop, empty]
      rfl
  | cons nd rest ih =>
      obtain ⟨fuel, rfl⟩ : ∃ more, fuel = more + 1 :=
        ⟨fuel - 1, by rw [List.length_cons] at enough; omega⟩
      have first : lst.head = some nd := (linked_iff.mp holds.linked).1
      have nodup := List.nodup_cons.mp holds.linked.nodup
      obtain ⟨here, others⟩ := List.forall_mem_cons.mp live
      have whole : lst.Holds heap.store ([] ++ nd :: rest) := holds
      obtain ⟨removed, _, frame⟩ := fkRawlistRemoveAnyone_split whole
      generalize unlinked : RawList.fkRawlistRemoveAnyone heap.store lst nd = pair at removed frame
      have stillLive : ∀ other ∈ rest, Function.update heap.live nd false other = true := by
        intro other member
        rw [update_of_absent nodup.1 other member]
        exact others other member
      obtain ⟨store, alive, used, ran, dead, kept⟩ := @ih
        { heap with
          store := pair.1
          live := Function.update heap.live nd false
          used := heap.used - 1 }
        fuel pair.2 removed stillLive (Nat.lt_of_succ_lt_succ enough)
      refine ⟨store, alive, used, ?_, List.forall_mem_cons.mpr ⟨?_, dead⟩, fun other outside => ?_⟩
      · rw [clearLoop, first]
        dsimp only
        rw [if_pos here, unlinked, ran]
        rfl
      · exact (kept nd nodup.1).2.trans (Function.update_self ..)
      · rw [List.mem_cons, not_or] at outside
        obtain ⟨links, state⟩ := kept other outside.2
        refine ⟨links.trans (frame other ?_), state.trans (Function.update_of_ne outside.1 ..)⟩
        exact fun inside => (List.mem_cons.mp inside).elim outside.1 outside.2

theorem clearBuckets_spec {slots : List (Option (RawList N))}
    (layout : DictHeap.Layout { heap with buckets := slots } ids) :
    ∃ store alive used, clearBuckets slots heap =
        some ({ heap with store := store, live := alive, used := used },
          refs ((contents ids).map heap.elt)) ∧
      (∀ nd ∈ contents ids, alive nd = false) ∧ ∀ nd ∉ contents ids, store nd = heap.store nd ∧
        alive nd = heap.live nd := by
  induction slots generalizing heap ids with
  | nil =>
      obtain rfl : ids = [] := List.eq_nil_of_map_eq_nil layout.shape.symm
      exact ⟨heap.store, heap.live, heap.used, rfl, fun nd member => absurd member List.not_mem_nil,
        fun nd _ => ⟨rfl, rfl⟩⟩
  | cons slot slots ih =>
      cases ids with
      | nil => cases layout.shape
      | cons nodes ids =>
          have whole : contents (nodes :: ids) = nodes.getD [] ++ contents ids := rfl
          rw [whole]
          cases slot with
          | none =>
              have nothing : nodes.getD [] = [] := layout.absent (i := 0) rfl
              rw [nothing, List.nil_append]
              exact ih layout.tail
          | some lst =>
              obtain ⟨holds, live, alone⟩ := layout.head
              have enough : (nodes.getD []).length < lst.len + 1 := by
                rw [holds.len]
                exact Nat.lt_succ_self _
              obtain ⟨store, alive, used, ran, dead, kept⟩ := clearLoop_spec holds live enough
              have later : DictHeap.Layout
                  { heap with store := store, live := alive, used := used, buckets := slots } ids :=
                @Layout.congr _ _ _ { heap with buckets := slots, used := used } ids
                  ⟨layout.tail.shape, layout.tail.holds, layout.tail.live,
                    layout.tail.nodup⟩ store alive
                  fun other member => kept other fun inside => alone inside member
              obtain ⟨final, last, count, more, gone, others⟩ :=
                @ih { heap with store := store, live := alive, used := used } ids later
              refine ⟨final, last, count, ?_, fun nd member => ?_, fun nd outside => ?_⟩
              · rw [clearBuckets, ran, Option.bind_some]
                dsimp only
                rw [more, List.map_append, refs_append]
                rfl
              · rcases List.mem_append.mp member with here | there
                · rw [(others nd fun inside => alone here inside).2]
                  exact dead nd here
                · exact gone nd there
              · rw [List.mem_append, not_or] at outside
                obtain ⟨links, state⟩ := others nd outside.2
                obtain ⟨before, earlier⟩ := kept nd outside.1
                exact ⟨links.trans before, state.trans earlier⟩

end Clear

/-! ## What an operation does to the memory -/

omit [DecidableEq N] in
/-- The nodes outside of the dictionary are as they were, the node that was allocated is in the
dictionary, a node that has left it is freed, and a key or value that was copied is in the
dictionary until it is freed. -/
structure Moves {A : Type} (heap : DictHeap N K V) (ids : List (Option (List N)))
    (done : DictDone N K V A) (later : List (Option (List N))) (fresh : List N) : Prop where
  layout : done.heap.Layout later
  frame : ∀ nd ∉ contents ids, nd ∉ fresh →
    done.heap.store nd = heap.store nd ∧ done.heap.elt nd = heap.elt nd ∧
      done.heap.live nd = heap.live nd
  nodes : ∀ nd ∈ contents later, nd ∈ contents ids ∨ nd ∈ fresh
  taken : ∀ nd ∈ fresh, nd ∈ contents later
  gone : ∀ nd ∈ contents ids, nd ∉ contents later → done.heap.live nd = false
  balance : (refs ((contents ids).map heap.elt) ++ done.copied).Perm
    (done.freed ++ refs ((contents later).map done.heap.elt))

section Moves

omit [DecidableEq N] in
/-- The nodes are freed, and nothing else has changed. -/
structure Cleared (heap : DictHeap N K V) (ids : List (Option (List N)))
    (after : DictHeap N K V) : Prop where
  elt : after.elt = heap.elt
  gone : ∀ nd ∈ contents ids, after.live nd = false
  frame : ∀ nd ∉ contents ids, after.store nd = heap.store nd ∧ after.live nd = heap.live nd

variable {after : DictHeap N K V} {later : List (Option (List N))}

omit [DecidableEq N] in
/-- An operation that at most makes the table larger. -/
theorem Carries.moves {A : Type} (carries : Carries heap ids after later) (answer : A) :
    Moves heap ids ⟨answer, after, [], []⟩ later [] where
  layout := carries.layout
  frame nd outside _ := ⟨carries.frame nd outside, congrFun carries.elt nd,
    congrFun carries.live nd⟩
  nodes nd member := .inl (carries.perm.mem_iff.mp member)
  taken nd member := absurd member List.not_mem_nil
  gone nd member left := absurd (carries.perm.mem_iff.mpr member) left
  balance := by
    rw [List.append_nil, List.nil_append, carries.elt]
    exact (carries.perm.symm.map heap.elt).flatMap_right _

omit [DecidableEq N] in
theorem Cleared.moves {A : Type} (cleared : Cleared heap ids after) (answer : A)
    (layout : after.Layout later) (nothing : contents later = []) :
    Moves heap ids ⟨answer, after, [], refs ((contents ids).map heap.elt)⟩ later [] where
  layout := layout
  frame nd outside _ := ⟨(cleared.frame nd outside).1, congrFun cleared.elt nd,
    (cleared.frame nd outside).2⟩
  nodes nd member := by
    rw [nothing] at member
    cases member
  taken nd member := absurd member List.not_mem_nil
  gone nd member _ := cleared.gone nd member
  balance := by
    rw [nothing]
    exact .refl _

theorem Layout.clear (layout : heap.Layout ids) :
    ∃ after, heap.fkDictClear = some (after, refs ((contents ids).map heap.elt)) ∧
      Cleared heap ids after ∧ after.buckets = [] := by
  obtain ⟨store, alive, used, ran, dead, kept⟩ :=
    @clearBuckets_spec _ _ _ _ heap ids heap.buckets layout
  rw [DictHeap.fkDictClear, ran]
  exact ⟨_, rfl, ⟨rfl, dead, kept⟩, rfl⟩

/-- An element of the dictionary gets another value. -/
theorem Moves.put {A B : Type} {answer : A} {copied freed : List (EltRef K V)}
    {fresh front back : List N} (other : B)
    (moves : Moves heap ids ⟨answer, after, copied, freed⟩ later fresh)
    (here : chain later idx = front ++ nd :: back) (value : V) :
    Moves heap ids
      ⟨other, { after with elt := Function.update after.elt nd ((after.elt nd).1, value) },
        copied ++ [.val value], freed ++ [.val (after.elt nd).2]⟩ later fresh where
  layout := ⟨moves.layout.shape, moves.layout.holds, moves.layout.live, moves.layout.nodup⟩
  frame other outside new := by
    obtain ⟨links, elt, live⟩ := moves.frame other outside new
    have member : nd ∈ contents later :=
      mem_contents_iff.mpr ⟨idx, here ▸ List.mem_append_right _ (List.mem_cons_self ..)⟩
    have differs : other ≠ nd :=
      fun same => (moves.nodes nd member).elim (fun old => outside (same ▸ old)) fun taken =>
        new (same ▸ taken)
    exact ⟨links, (Function.update_of_ne differs ..).trans elt, live⟩
  nodes := moves.nodes
  taken := moves.taken
  gone := moves.gone
  balance := by
    classical
    have member : nd ∈ contents later :=
      mem_contents_iff.mpr ⟨idx, here ▸ List.mem_append_right _ (List.mem_cons_self ..)⟩
    have nodup := moves.layout.nodup
    have balance := moves.balance
    obtain ⟨first, second, whole⟩ := List.append_of_mem member
    rw [whole] at nodup balance ⊢
    rw [List.nodup_middle, List.nodup_cons, List.mem_append, not_or] at nodup
    dsimp only at balance ⊢
    rw [List.map_append, List.map_cons, refs_append, refs_cons] at balance ⊢
    rw [List.map_congr_left (update_of_absent nodup.1.1),
      List.map_congr_left (update_of_absent nodup.1.2), Function.update_self]
    refine List.perm_iff_count.mpr fun ref => ?_
    have count := List.perm_iff_count.mp balance ref
    simp only [List.count_append, List.count_cons, List.count_nil] at count ⊢
    omega

end Moves

/-! ## The operations -/

section Operations

theorem Layout.add (lawful : eop.Lawful) (layout : heap.Layout ids) (wf : (heap.value ids).Wf eop)
    (key : K) (value : V) (free : heap.live nd = false) :
    ∃ done later fresh, heap.fkDictAdd eop key value nd = some done ∧
      Moves heap ids done later fresh ∧ (∀ other ∈ fresh, other = nd) ∧
      done.answer = (Freekick.fkDictAdd eop (heap.value ids) key value).1 ∧
      done.heap.value later = (Freekick.fkDictAdd eop (heap.value ids) key value).2 := by
  obtain ⟨roomy, later, stretched, carries, same, roomyWf⟩ := layout.room lawful wf
  unfold DictHeap.fkDictAdd Freekick.fkDictAdd
  dsimp only
  rw [stretched, Option.bind_some, ← same]
  cases carries.layout.searched roomyWf key with
  | found idx front other back chained nodes elements =>
      rw [nodes, elements]
      exact ⟨⟨.err, roomy, [], []⟩, later, [], rfl, carries.moves _,
        fun other member => absurd member List.not_mem_nil, rfl, rfl⟩
  | absent idx inside place nodes elements =>
      have dead : roomy.live nd = false := by
        rw [carries.live]
        exact free
      have new : nd ∉ contents later := fun member => by
        rw [carries.layout.live nd member] at dead
        cases dead
      have taken : DictHeap.Layout
          { roomy with
            elt := Function.update roomy.elt nd (key, value)
            live := Function.update roomy.live nd true } later :=
        ⟨carries.layout.shape, carries.layout.holds,
          fun other member => (update_of_absent new other member).trans
            (carries.layout.live other member), carries.layout.nodup⟩
      obtain ⟨store, lst, inserted, placed, frame⟩ :=
        taken.insertAt inside new (Function.update_self ..)
      have perm : (contents (later.set idx (some (nd :: chain later idx)))).Perm
          (nd :: contents later) :=
        @contents_push _ later (fun _ => idx) nd inside
      have whole := perm.trans (carries.perm.cons nd)
      have outside : nd ∉ contents ids := fun member => new (carries.perm.mem_iff.mpr member)
      rw [nodes, elements, Option.bind_some]
      dsimp only
      rw [inserted]
      refine ⟨_, later.set idx (some (nd :: chain later idx)), [nd], rfl,
        ⟨⟨placed.shape, placed.holds, placed.live, placed.nodup⟩, fun other absent apart => ?_,
          fun other member => ?_, fun other member => ?_,
          fun other member left => ?_, ?_⟩,
          fun other member => List.mem_singleton.mp member, rfl, ?_⟩
      · have differs : other ≠ nd := fun same => apart (same ▸ List.mem_singleton_self _)
        refine ⟨(frame other differs fun member => absent (carries.perm.mem_iff.mp member)).trans
          (carries.frame other absent), ?_, ?_⟩
        · exact (Function.update_of_ne differs ..).trans (congrFun carries.elt other)
        · exact (Function.update_of_ne differs ..).trans (congrFun carries.live other)
      · rcases List.mem_cons.mp (whole.mem_iff.mp member) with rfl | old
        · exact .inr (List.mem_singleton_self _)
        · exact .inl old
      · rw [List.mem_singleton.mp member]
        exact perm.mem_iff.mpr (List.mem_cons_self ..)
      · exact absurd (whole.mem_iff.mpr (List.mem_cons_of_mem _ member)) left
      · have mapped := (whole.map (Function.update roomy.elt nd (key, value))).flatMap_right
            (fun elt : K × V => [EltRef.key elt.1, EltRef.val elt.2])
        have others : (contents ids).map (Function.update roomy.elt nd (key, value)) =
            (contents ids).map heap.elt := by
          rw [List.map_congr_left (update_of_absent outside), carries.elt]
        rw [List.map_cons, Function.update_self, others] at mapped
        exact List.perm_append_comm.trans mapped.symm
      · have same : mapSlots (Function.update roomy.elt nd (key, value)) later =
            mapSlots roomy.elt later :=
          mapSlots_congr (update_of_absent new)
        have chained : chain (mapSlots roomy.elt later) idx = chain
            (mapSlots (Function.update roomy.elt nd (key, value)) later) idx :=
          congrArg (fun slots => chain slots idx) same.symm
        refine congrArg (fun buckets =>
          (⟨roomy.size, roomy.sizeMask, roomy.used + 1, roomy.limit, buckets⟩ : FkDict K V)) ?_
        change mapSlots (Function.update roomy.elt nd (key, value)) _ =
          (mapSlots roomy.elt later).set idx _
        rw [mapSlots_set, List.map_cons, Function.update_self, ← chain_mapSlots, same]
        rfl

theorem Layout.replace (lawful : eop.Lawful) (layout : heap.Layout ids)
    (wf : (heap.value ids).Wf eop) (key : K) (value : V) (free : heap.live nd = false) :
    ∃ done later fresh, heap.fkDictReplace eop key value nd = some done ∧
      Moves heap ids done later fresh ∧ (∀ other ∈ fresh, other = nd) ∧
      done.answer = (Freekick.fkDictReplace eop (heap.value ids) key value).1 ∧
      done.heap.value later = (Freekick.fkDictReplace eop (heap.value ids) key value).2 := by
  obtain ⟨⟨rt, added, copied, freed⟩, later, fresh, ran, moves, only, answer, same⟩ :=
    layout.add lawful wf key value free
  obtain rfl : rt = (Freekick.fkDictAdd eop (heap.value ids) key value).1 := answer
  have same : added.value later = (Freekick.fkDictAdd eop (heap.value ids) key value).2 := same
  unfold DictHeap.fkDictReplace Freekick.fkDictReplace
  rw [ran, Option.bind_some]
  dsimp only
  by_cases absent : Freekick.fkDictGet eop (heap.value ids) key = none
  · obtain ⟨code, _⟩ := fkDictAdd_absent lawful wf absent value
    have pair : Freekick.fkDictAdd eop (heap.value ids) key value = (.ok, added.value later) :=
      Prod.ext code same.symm
    rw [pair] at moves ⊢
    exact ⟨_, later, fresh, rfl, ⟨moves.layout, moves.frame, moves.nodes, moves.taken, moves.gone,
      moves.balance⟩, only, rfl, rfl⟩
  · obtain ⟨code, addedWf, _⟩ := fkDictAdd_present lawful wf absent value
    have present := fkDictAdd_get_present lawful wf absent value
    have pair : Freekick.fkDictAdd eop (heap.value ids) key value = (.err, added.value later) :=
      Prod.ext code same.symm
    rw [pair] at moves addedWf present ⊢
    have still := (@fkDictSearch_isSome_iff _ _ eop (added.value later) key lawful addedWf).mpr
      (by rw [present]; exact absent)
    cases moves.layout.searched addedWf key with
    | absent idx inside place nodes elements =>
        rw [elements] at still
        cases still
    | found idx front other back chained nodes elements =>
        dsimp only at nodes elements
        rw [nodes]
        refine ⟨_, later, fresh, rfl, moves.put 1 chained value, only, rfl, ?_⟩
        have updated := mapSlots_update moves.layout.nodup chained added.elt
          ((added.elt other).1, value)
        have put : fkDictPut eop (added.value later) key value =
            ⟨added.size, added.sizeMask, added.used, added.limit, (mapSlots added.elt later).set idx
              (some ((chain (mapSlots added.elt later) idx).modify front.length fun elt =>
                (elt.1, value)))⟩ := by
          unfold fkDictPut
          rw [elements]
          rfl
        refine Eq.trans ?_ put.symm
        refine congrArg (fun buckets =>
          (⟨added.size, added.sizeMask, added.used, added.limit, buckets⟩ : FkDict K V)) ?_
        refine updated.trans ?_
        rw [chain_mapSlots, chained, List.map_append, List.map_cons]
        have length : front.length = (front.map added.elt).length := (List.length_map ..).symm
        rw [length, List.modify_eq_set_getElem?]
        simp

omit [DecidableEq N] in
theorem Layout.get (layout : heap.Layout ids) (wf : (heap.value ids).Wf eop) (key : K) :
    heap.fkDictGet eop key = some (Freekick.fkDictGet eop (heap.value ids) key) := by
  unfold DictHeap.fkDictGet Freekick.fkDictGet
  cases layout.searched wf key with
  | absent idx inside place nodes elements =>
      rw [nodes, elements]
      rfl
  | found idx front nd back chained nodes elements =>
      rw [nodes, elements]
      change _ = some ((chain (mapSlots heap.elt ids) idx)[front.length]?.map Prod.snd)
      rw [chain_mapSlots, chained]
      simp

theorem Layout.removeKey (layout : heap.Layout ids) (wf : (heap.value ids).Wf eop) (key : K) :
    ∃ rt after later, heap.fkDictRemove eop key = some (rt, after) ∧
      Moves heap ids ⟨rt, after, [], heap.removedRefs eop key⟩ later [] ∧
        rt = (Freekick.fkDictRemove eop (heap.value ids) key).1 ∧
      after.value later = (Freekick.fkDictRemove eop (heap.value ids) key).2 := by
  unfold DictHeap.fkDictRemove Freekick.fkDictRemove DictHeap.removedRefs
  cases layout.searched wf key with
  | absent idx inside place nodes elements =>
      rw [nodes, elements]
      exact ⟨.err, heap, ids, rfl, (Carries.refl layout).moves _, rfl, rfl⟩
  | found idx front nd back chained nodes elements =>
      obtain ⟨lst, bucket, holds⟩ :=
        layout.present (chained ▸ List.mem_append_right front (List.mem_cons_self ..))
      obtain ⟨removed, _, frame⟩ := fkRawlistRemoveAnyone_split (chained ▸ holds)
      have perm := contents_remove chained
      have inChain : ∀ {other}, other ∉ contents ids → other ∉ front ++ nd :: back :=
        fun absent member => absent (mem_contents_iff.mpr ⟨idx, chained ▸ member⟩)
      have outside : nd ∉ contents (ids.set idx (some (front ++ back))) :=
        (List.nodup_cons.mp (perm.nodup_iff.mp layout.nodup)).1
      rw [nodes, elements, Option.bind_some]
      dsimp only
      rw [bucket]
      refine ⟨_, _, ids.set idx (some (front ++ back)), rfl,
        ⟨layout.set chained removed frame (heap.used - 1), fun other absent _ =>
          ⟨frame other (inChain absent), rfl, ?_⟩, fun other member => ?_,
          fun other member => absurd member List.not_mem_nil, fun other member left => ?_,
          ?_⟩, rfl, ?_⟩
      · refine Function.update_of_ne ?_ ..
        rintro rfl
        exact absent (perm.mem_iff.mpr (List.mem_cons_self ..))
      · exact .inl (perm.mem_iff.mpr (List.mem_cons_of_mem _ member))
      · rcases List.mem_cons.mp (perm.mem_iff.mp member) with rfl | stays
        · exact Function.update_self ..
        · exact absurd stays left
      · rw [List.append_nil]
        exact (perm.map heap.elt).flatMap_right _
      · refine congrArg (fun buckets =>
          (⟨heap.size, heap.sizeMask, heap.used - 1, heap.limit, buckets⟩ : FkDict K V)) ?_
        change mapSlots heap.elt _ = (mapSlots heap.elt ids).set idx
          (some ((chain (mapSlots heap.elt ids) idx).eraseIdx front.length))
        rw [mapSlots_set, chain_mapSlots, chained]
        simp [List.eraseIdx_append_of_length_le]

/-- A call answers as the call on the dictionary that the nodes stand for. -/
theorem Layout.call (lawful : eop.Lawful) (layout : heap.Layout ids) (wf : (heap.value ids).Wf eop)
    (op : DictOp K V) (free : op.allocates = true → heap.live nd = false) :
    ∃ done later fresh, heap.call eop nd op = some done ∧ Moves heap ids done later fresh ∧
      (∀ other ∈ fresh, heap.live other = false) ∧
        done.answer = (dictStep eop (heap.value ids) op).1 ∧
      done.heap.value later = (dictStep eop (heap.value ids) op).2 := by
  cases op with
  | add key value =>
      obtain ⟨done, later, fresh, ran, moves, only, answer, same⟩ :=
        layout.add lawful wf key value (free rfl)
      refine ⟨_, later, fresh, congrArg (Option.map _) ran,
        ⟨moves.layout, moves.frame, moves.nodes, moves.taken, moves.gone, moves.balance⟩,
        fun other member => only other member ▸ free rfl, congrArg DictAnswer.code answer, same⟩
  | replace key value =>
      obtain ⟨done, later, fresh, ran, moves, only, answer, same⟩ :=
        layout.replace lawful wf key value (free rfl)
      refine ⟨_, later, fresh, congrArg (Option.map _) ran,
        ⟨moves.layout, moves.frame, moves.nodes, moves.taken, moves.gone, moves.balance⟩,
        fun other member => only other member ▸ free rfl, congrArg DictAnswer.replaced answer, same⟩
  | remove key =>
      obtain ⟨rt, after, later, ran, moves, answer, same⟩ := layout.removeKey wf key
      refine ⟨_, later, [], congrArg (Option.map _) ran,
        ⟨moves.layout, moves.frame, moves.nodes, moves.taken, moves.gone, moves.balance⟩,
        fun other member => absurd member List.not_mem_nil, congrArg DictAnswer.code answer, same⟩
  | get key =>
      have moves : Moves heap ids ⟨DictAnswer.found (Freekick.fkDictGet eop (heap.value ids) key),
          heap, [], []⟩ ids [] :=
        (Carries.refl layout).moves _
      refine ⟨_, ids, [], ?_, moves, fun other member => absurd member List.not_mem_nil, rfl, rfl⟩
      rw [DictHeap.call, layout.get wf key]
      rfl
  | empty =>
      obtain ⟨after, ran, cleared, _⟩ := layout.clear
      have moves := (show Cleared heap ids after.fkDictInit from ⟨cleared.elt, cleared.gone,
        cleared.frame⟩).moves (.emptied : DictAnswer V) (fkDictInit_layout after)
          (contents_replicate _)
      refine ⟨_, List.replicate fkDictInitSize none, [], ?_, moves,
        fun other member => absurd member List.not_mem_nil, rfl, ?_⟩
      · rw [DictHeap.call, DictHeap.fkDictEmpty, ran]
        rfl
      · exact fkDictInit_value after

end Operations

end DictHeap

end Freekick
