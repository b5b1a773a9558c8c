import Freekick.Base.DictHeap
import Freekick.Lib.Little

/-!
# The dictionary iterator

The iterator saves the node behind the one it returns, so the returned one may go.  Every
element is returned once, and a random one is found by counting.
-/

namespace Freekick

open Lib.Buckets Lib.KeyedMap Lib.Nodes

variable {N K V : Type} {heap : DictHeap N K V} {ids : List (Option (List N))} {eop : FkEltOp K}
  {iter : NodeIter N} {front rest : List N} {nd : N}

/-- The nodes of the current bucket that an iterator has not returned yet. -/
structure NodeIter.Ahead (ids : List (Option (List N))) (iter : NodeIter N)
    (rest : List N) : Prop where
  least : -1 ≤ iter.idx
  most : iter.idx < ids.length
  fresh : iter.cur = none → rest = []
  next : iter.cur ≠ none → 0 ≤ iter.idx ∧ ∃ front, chain ids iter.idx.toNat = front ++ rest ∧
    iter.next = rest.head?

/-- All nodes that it has not returned yet. -/
def NodeIter.left (ids : List (Option (List N))) (iter : NodeIter N) (rest : List N) : List N :=
  rest ++ contents (ids.drop (iter.idx + 1).toNat)

/-- The next node is returned, and the others stay ahead; without one the iteration ends. -/
inductive NodeIter.Returns (ids : List (Option (List N))) :
    List N → Option (Option N × NodeIter N) → Prop where
  | ended (later : NodeIter N) : Returns ids [] (some (none, later))
  | found {later : NodeIter N} {front rest : List N} {nd : N} (ahead : later.Ahead ids rest)
    (cur : later.cur = some nd)
      (here : chain ids later.idx.toNat = front ++ nd :: rest) : Returns ids
      (nd :: later.left ids rest) (some (some nd, later))

theorem nodeIterBegin_ahead (ids : List (Option (List N))) : nodeIterBegin.Ahead ids [] where
  least := Int.le_refl _
  most := by
    have nonneg := Int.natCast_nonneg ids.length
    change (-1 : Int) < ids.length
    omega
  fresh := fun _ => rfl
  next := fun started => absurd rfl started

namespace DictHeap

/-- The link of a returned node is read before the caller may remove it. -/
theorem Layout.returned (layout : heap.Layout ids) {i : Int} (nonneg : 0 ≤ i)
    (inside : i < ids.length) (here : chain ids i.toNat = front ++ nd :: rest) :
    NodeIter.Returns ids (nd :: (rest ++ contents (ids.drop (i + 1).toNat)))
      (heap.returned i nd) := by
  have member : nd ∈ chain ids i.toNat := here ▸ List.mem_append_right _ (List.mem_cons_self ..)
  obtain ⟨lst, _, holds⟩ := layout.present member
  have linked := here ▸ holds.linked
  rw [DictHeap.returned, if_pos (layout.live_chain member), linked.next_eq]
  have ahead : NodeIter.Ahead ids ⟨i, some nd, rest.head?⟩ rest := by
    refine ⟨Int.le_trans (by decide) nonneg, inside, nofun,
      fun _ => ⟨nonneg, front ++ [nd], ?_, rfl⟩⟩
    rw [List.append_assoc, List.singleton_append]
    exact here
  exact .found ahead rfl here

/-- A round that enters a bucket. -/
theorem Layout.iterLoop_bucket (layout : heap.Layout ids) (size : heap.size = ids.length)
    {idx : Int} (least : -1 ≤ idx) (inside : idx + 1 < ids.length) (fuel : Nat) (next : Option N) :
    heap.iterLoop (fuel + 1) ⟨idx, none, next⟩ =
      (chain ids (idx + 1).toNat).head?.elim (heap.iterLoop fuel ⟨idx + 1, none, next⟩)
      (heap.returned (idx + 1)) := by
  have slot : heap.bucketAt (idx + 1) = heap.buckets[(idx + 1).toNat]? := if_neg (by omega)
  rw [DictHeap.iterLoop]
  dsimp only
  rw [if_neg (by omega), slot]
  cases bucket : heap.buckets[(idx + 1).toNat]? with
  | none =>
      rw [List.getElem?_eq_none_iff, layout.length] at bucket
      omega
  | some elst =>
      cases elst with
      | none =>
          rw [layout.absent bucket]
          rfl
      | some elst =>
          have head := (linked_iff.mp (layout.holds _ elst bucket).linked).1
          dsimp only
          rw [head]
          cases (chain ids (idx + 1).toNat).head? <;> rfl

theorem iterLoop_returns (layout : heap.Layout ids) (size : heap.size = ids.length) {fuel : Nat}
    (ahead : iter.Ahead ids rest)
    (enough : (ids.length - iter.idx).toNat + iter.cur.isSome.toNat ≤ fuel) :
    NodeIter.Returns ids (iter.left ids rest) (heap.iterLoop fuel iter) := by
  induction fuel generalizing iter rest with
  | zero =>
      have most := ahead.most
      omega
  | succ fuel ih =>
      obtain ⟨idx, cur, next⟩ := iter
      have least : -1 ≤ idx := ahead.least
      have most : idx < ids.length := ahead.most
      cases cur with
      | none =>
          simp only [Option.isSome_none, Bool.toNat_false] at enough
          rw [ahead.fresh rfl, NodeIter.left, List.nil_append]
          dsimp only
          by_cases ended : idx + 1 = heap.size
          · have nothing : contents (ids.drop (idx + 1).toNat) = [] := by
              rw [ended, size, Int.toNat_natCast, List.drop_length]
              rfl
            rw [DictHeap.iterLoop, nothing]
            dsimp only
            rw [if_pos ended]
            exact .ended _
          · have following : (idx + 1).toNat + 1 = (idx + 1 + 1).toNat := by omega
            rw [layout.iterLoop_bucket size least (by omega), contents_drop (by omega), following]
            cases here : chain ids (idx + 1).toNat with
            | nil =>
                have further : NodeIter.Ahead ids ⟨idx + 1, none, next⟩ [] :=
                  ⟨by change -1 ≤ idx + 1; omega, by dsimp only; omega, fun _ => rfl,
                    fun other => absurd rfl other⟩
                exact ih further (by simp only [Option.isSome_none, Bool.toNat_false]; omega)
            | cons nd rest =>
                have first : chain ids (idx + 1).toNat = [] ++ nd :: rest := here
                exact layout.returned (by omega) (by omega) first
      | some last =>
          simp only [Option.isSome_some, Bool.toNat_true] at enough
          obtain ⟨nonneg, front, here, saved⟩ := ahead.next nofun
          dsimp only at saved here nonneg
          rw [NodeIter.left, DictHeap.iterLoop]
          dsimp only
          rw [saved]
          cases rest with
          | nil =>
              have further : NodeIter.Ahead ids ⟨idx, none, next⟩ [] :=
                ⟨least, most, fun _ => rfl, fun other => absurd rfl other⟩
              rw [saved] at further
              exact ih further (by simp only [Option.isSome_none, Bool.toNat_false]; omega)
          | cons nd rest => exact layout.returned nonneg most here

/-- The fuel of the loop is enough. -/
theorem fkDictIterNext_returns (layout : heap.Layout ids) (size : heap.size = ids.length)
    (ahead : iter.Ahead ids rest) :
    NodeIter.Returns ids (iter.left ids rest) (heap.fkDictIterNext iter) := by
  refine iterLoop_returns layout size ahead ?_
  have least := ahead.least
  have bit := Bool.toNat_le iter.cur.isSome
  rw [size]
  omega

theorem value_size (wf : (heap.value ids).Wf eop) : heap.size = ids.length := by
  have length := wf.length
  rw [DictHeap.value, mapSlots, List.length_map] at length
  exact length.symm

end DictHeap

theorem NodeIter.Returns.next {others : List N} {result : Option (Option N × NodeIter N)}
    (returns : Returns ids (nd :: others) result) :
    ∃ later front rest, result = some (some nd, later) ∧ later.Ahead ids rest ∧
      later.cur = some nd ∧ chain ids later.idx.toNat = front ++ nd :: rest ∧
      others = later.left ids rest := by
  cases returns with
  | found ahead cur here => exact ⟨_, _, _, rfl, ahead, cur, here, rfl⟩

theorem NodeIter.Returns.last {result : Option (Option N × NodeIter N)}
    (returns : Returns ids [] result) :
    ∃ later, result = some (none, later) := by
  cases returns with
  | ended later => exact ⟨later, rfl⟩

namespace DictHeap

theorem fkDictIterNext_some (layout : heap.Layout ids) (size : heap.size = ids.length)
    (ahead : iter.Ahead ids rest) {others : List N} (left : iter.left ids rest = nd :: others) :
    ∃ later front rest, heap.fkDictIterNext iter = some (some nd, later) ∧ later.Ahead ids rest ∧
      later.cur = some nd ∧ chain ids later.idx.toNat = front ++ nd :: rest ∧
      others = later.left ids rest := by
  have returns := fkDictIterNext_returns layout size ahead
  rw [left] at returns
  exact returns.next

/-- A picked element is the one that is counted to. -/
theorem randomLoop_eq (layout : heap.Layout ids) (size : heap.size = ids.length) {tryTimes : Nat}
    {first : Option N} (ahead : iter.Ahead ids rest)
    (inside : tryTimes < (iter.left ids rest).length) :
    heap.randomLoop (tryTimes + 1) iter first = (iter.left ids rest)[tryTimes]? := by
  induction tryTimes generalizing iter rest first with
  | zero =>
      obtain ⟨nd, others, left⟩ := List.exists_cons_of_length_pos inside
      obtain ⟨later, _, _, got, _⟩ := fkDictIterNext_some layout size ahead left
      rw [left, DictHeap.randomLoop, got]
      rfl
  | succ tryTimes ih =>
      obtain ⟨nd, others, left⟩ := List.exists_cons_of_length_pos (Nat.zero_lt_of_lt inside)
      obtain ⟨later, front, rest, got, further, _, _, rfl⟩ :=
        fkDictIterNext_some layout size ahead left
      rw [left] at inside ⊢
      rw [DictHeap.randomLoop, got, Option.bind_some, List.getElem?_cons_succ]
      exact ih further (Nat.lt_of_succ_lt_succ inside)

variable [DecidableEq N]

/-- Every element is returned once, also when some of them are removed after that. -/
theorem visitNodes_eq (lawful : eop.Lawful) {chosen : Nat → Bool} {calls : Nat}
    (layout : heap.Layout ids) (wf : (heap.value ids).Wf eop)
    (ahead : iter.Ahead ids rest) (enough : (iter.left ids rest).length < calls) :
    ∃ final, heap.visitNodes eop chosen calls iter = some
      ((iter.left ids rest).map (fun nd => some (heap.elt nd)) ++ [none], final) ∧
      ∃ dct, final.Represents dct ∧ dct.Wf eop := by
  induction calls generalizing chosen heap ids iter rest with
  | zero => exact absurd enough (Nat.not_lt_zero _)
  | succ calls ih =>
      have size := value_size wf
      cases left : iter.left ids rest with
      | nil =>
          have returns := fkDictIterNext_returns layout size ahead
          rw [left] at returns
          obtain ⟨later, got⟩ := returns.last
          refine ⟨heap, ?_, heap.value ids, ⟨ids, layout, rfl⟩, wf⟩
          rw [DictHeap.visitNodes, got]
          rfl
      | cons nd others =>
          rw [left] at enough
          obtain ⟨later, front, rest, got, further, cur, here, rfl⟩ :=
            fkDictIterNext_some layout size ahead left
          rw [DictHeap.visitNodes, got]
          dsimp only
          cases goes : chosen 0 with
          | false =>
              obtain ⟨final, visited, kept⟩ :=
                @ih heap ids later rest (fun count => chosen (count + 1)) layout wf further
                  (Nat.lt_of_succ_lt_succ enough)
              refine ⟨final, ?_, kept⟩
              rw [if_neg Bool.false_ne_true, Option.bind_some, visited]
              rfl
          | true =>
              obtain ⟨after, removed, layout', value, elt, _⟩ := layout.remove lawful wf here
              have wf' := (fkDictRemove_spec lawful wf (heap.elt nd).1).2.1
              rw [← value] at wf'
              obtain ⟨nonneg, _, _, saved⟩ := further.next (by rw [cur]; exact nofun)
              have inside : later.idx.toNat < ids.length :=
                inside_of_mem (here ▸ List.mem_append_right _ (List.mem_cons_self ..))
              have further' : later.Ahead
                  (ids.set later.idx.toNat (some (front ++ rest))) rest := by
                refine ⟨further.least, ?_, further.fresh,
                  fun _ => ⟨nonneg, front, chain_set_same inside _, saved⟩⟩
                rw [List.length_set]
                exact further.most
              have left' : later.left (ids.set later.idx.toNat (some (front ++ rest))) rest =
                  later.left ids rest := by
                rw [NodeIter.left, NodeIter.left, List.drop_set_of_lt (by omega)]
              have enough' := Nat.lt_of_succ_lt_succ enough
              rw [← left'] at enough'
              obtain ⟨final, visited, kept⟩ :=
                @ih after _ later rest (fun count => chosen (count + 1)) layout' wf'
                  further' enough'
              refine ⟨final, ?_, kept⟩
              rw [left', elt] at visited
              rw [if_pos rfl, removed, Option.map_some, Option.bind_some, visited]
              rfl

omit [DecidableEq N] in
/-- The random element of the nodes is the one of the dictionary. -/
theorem fkDictRandom_eq {dct : FkDict K V} (represents : heap.Represents dct) (wf : dct.Wf eop)
    (number : Nat) :
    heap.fkDictRandom number = Freekick.fkDictRandom dct number := by
  obtain ⟨ids, layout, rfl⟩ := represents
  have size := value_size wf
  have elements : (heap.value ids).elements = (contents ids).map heap.elt :=
    Layout.elements heap ids
  have count : heap.used = (contents ids).length := by
    rw [← List.length_map (f := heap.elt), ← elements]
    exact wf.count
  have left : nodeIterBegin.left ids [] = contents ids := rfl
  have left' : FkDictIter.left (heap.value ids) fkDictIterBegin = (contents ids).map heap.elt :=
    elements
  have used : fkDictLen (heap.value ids) = heap.used := rfl
  unfold DictHeap.fkDictRandom Freekick.fkDictRandom
  rw [used]
  by_cases none : heap.used = 0
  · rw [if_pos none, if_pos none]
  · rw [if_neg none, if_neg none]
    have most : (toInt32 (number % heap.used + 1 : Nat)).toNat ≤ heap.used := by
      have inside : number % heap.used < heap.used := Nat.mod_lt _ (Nat.pos_of_ne_zero none)
      rw [toInt32, Int.bmod_def]
      split <;> omega
    have large := wf.size_ge
    cases tries : (toInt32 (number % heap.used + 1 : Nat)).toNat with
    | zero => rfl
    | succ tryTimes =>
        have here : tryTimes < (nodeIterBegin.left ids []).length := by
          rw [left, ← count]
          omega
        have there : tryTimes < (FkDictIter.left (heap.value ids) fkDictIterBegin).length := by
          rw [left', List.length_map, ← count]
          omega
        have start : (fkDictIterBegin : FkDictIter K V).idx < (heap.value ids).size := by
          change (-1 : Int) < (heap.value ids).size
          omega
        rw [randomLoop_eq layout size (nodeIterBegin_ahead ids) here,
          Freekick.randomLoop_eq wf.length (Int.le_refl _) start there, left, left',
          List.getElem?_map]

/-- What the users of an iterator rely on, for any choice of removals and a result of `rand()`. -/
structure Iterates (eop : FkEltOp K) (heap : DictHeap N K V) (dct : FkDict K V)
    (chosen : Nat → Bool) (number : Nat) : Prop where
  visits : ∃ final, heap.visitNodes eop chosen (dct.used + 1) nodeIterBegin = some
    (dct.elements.map some ++ [none], final)
  once : dct.elements.length = dct.used ∧ Distinct eop.Same dct.elements
  random : dct.used ≠ 0 → ∃ elt ∈ dct.elements, heap.fkDictRandom number = some elt

omit [DecidableEq N] in
/-- `try_times` is an `int`, and a table of 2 ^ 31 elements or more can make it negative. -/
theorem fkDictRandom_iff {dct : FkDict K V} (wf : dct.Wf eop) {number : Nat}
    (rand : number < 2 ^ 31) :
    (dct.used ≠ 0 → ∃ elt ∈ dct.elements, Freekick.fkDictRandom dct number = some elt) ↔
      dct.used < 2 ^ 31 ∨ number ≠ 2 ^ 31 - 1 := by
  have picks : ∀ elt, Freekick.fkDictRandom dct number = some elt → ∃ elt ∈ dct.elements,
      Freekick.fkDictRandom dct number = some elt :=
    fun elt picked => ⟨elt, fkDictRandom_mem wf picked, picked⟩
  by_cases small : dct.used < 2 ^ 31
  · refine iff_of_true (fun positive => ?_) (.inl small)
    obtain ⟨elt, picked⟩ := fkDictRandom_some wf positive small number
    exact picks elt picked
  · have positive : fkDictLen dct ≠ 0 := by
      change dct.used ≠ 0
      omega
    have same : number % fkDictLen dct = number :=
      Nat.mod_eq_of_lt (by change number < dct.used; omega)
    rw [or_iff_right small]
    constructor
    · rintro random rfl
      obtain ⟨elt, _, picked⟩ := random positive
      have negative : (toInt32 (2 ^ 31 - 1 + 1 : Nat)).toNat = 0 := by decide
      rw [Freekick.fkDictRandom, if_neg positive, same, negative] at picked
      cases picked
    · intro differs _
      obtain ⟨elt, picked⟩ := fkDictRandom_counted wf positive number (by omega)
      exact picks elt picked

end DictHeap

/-! ## Memory for a dictionary -/

section Memory

variable {I : Type} [DecidableEq I] [DecidableEq N] {state : RawLists I N} {seqs : I → List N}

/-- New nodes behind a list. -/
theorem RawLists.Hold.extend (hold : state.Hold seqs) {i : I} {nodes : List N}
    (fresh : ∀ nd ∈ nodes, ∀ j, nd ∉ seqs j) (nodup : nodes.Nodup) :
    ∃ next : RawLists I N, next.Hold (Function.update seqs i (seqs i ++ nodes)) := by
  induction nodes generalizing state seqs with
  | nil =>
      rw [List.append_nil, Function.update_eq_self]
      exact ⟨state, hold⟩
  | cons nd rest ih =>
      obtain ⟨new, others⟩ := List.forall_mem_cons.mp fresh
      obtain ⟨absent, nodup⟩ := List.nodup_cons.mp nodup
      have admitted : (ListOp.insertTail i nd).Admitted seqs := new
      obtain ⟨middle, _, does⟩ := listStep_does hold admitted
      have kept : middle.Hold (Function.update seqs i (seqs i ++ [nd])) := does.hold
      have fresh' : ∀ other ∈ rest, ∀ j, other ∉ Function.update seqs i (seqs i ++ [nd]) j := by
        intro other member j
        by_cases same : j = i
        · subst same
          rw [Function.update_self, List.mem_append, List.mem_singleton, not_or]
          exact ⟨others other member j, fun equal => absent (equal ▸ member)⟩
        · rw [Function.update_of_ne same]
          exact others other member j
      obtain ⟨next, holds⟩ := ih kept fresh' nodup
      rw [Function.update_self, List.append_assoc, Function.update_idem] at holds
      exact ⟨next, holds⟩

theorem exists_lists (slots : List (Option (List N))) (nodup : (contents slots).Nodup) : ∃ state :
    RawLists Nat N, state.Hold (chain slots) := by
  induction slots using List.reverseRecOn with
  | nil =>
      refine ⟨RawLists.init fun _ => ⟨none, none⟩, ?_⟩
      have nothing : chain ([] : List (Option (List N))) = fun _ => [] := rfl
      rw [nothing]
      exact RawLists.init_hold _
  | append_singleton slots slot ih =>
      have whole : contents (slots ++ [slot]) = contents slots ++ slot.getD [] := by simp [contents]
      rw [whole] at nodup
      obtain ⟨front, back, apart⟩ := List.nodup_append.mp nodup
      obtain ⟨state, hold⟩ := ih front
      have fresh : ∀ nd ∈ slot.getD [], ∀ j, nd ∉ chain slots j :=
        fun nd member j inChain => apart nd (mem_contents_iff.mpr ⟨j, inChain⟩) nd member rfl
      obtain ⟨next, holds⟩ := @RawLists.Hold.extend _ _ _ _ _ _ hold slots.length _ fresh back
      refine ⟨next, ?_⟩
      have beyond : chain slots slots.length = [] := by simp [chain]
      have same : chain (slots ++ [slot]) = Function.update (chain slots) slots.length
          (chain slots slots.length ++ slot.getD []) := by
        funext j
        rw [beyond, List.nil_append, Function.update_apply]
        split
        · next here => simp [chain, here]
        · next differs =>
            rcases Nat.lt_or_gt_of_ne differs with less | greater
            · simp [chain, List.getD, List.getElem?_append_left less]
            · have outside : (slots ++ [slot]).length ≤ j := by
                rw [List.length_append, List.length_singleton]
                exact greater
              simp only [chain, List.getD_eq_default _ _ outside,
                List.getD_eq_default _ _ (Nat.le_of_lt greater)]
      rw [same]
      exact holds

end Memory

/-- There is memory that holds a dictionary: the elements themselves are its nodes. -/
theorem FkDict.Wf.exists_heap [DecidableEq K] [DecidableEq V] {dct : FkDict K V}
    (lawful : eop.Lawful) (wf : dct.Wf eop) :
    ∃ heap : DictHeap (K × V) K V, heap.Represents dct := by
  have nodup : dct.elements.Nodup := by
    refine wf.distinct.imp fun apart same => apart ?_
    rw [same]
    exact lawful.equiv.refl _
  obtain ⟨state, hold⟩ := exists_lists dct.buckets nodup
  refine ⟨{
    size := dct.size, sizeMask := dct.sizeMask, used := dct.used, limit := dct.limit
    buckets := dct.buckets.mapIdx fun i slot => slot.map fun _ => state.lists i
    store := state.store, elt := id, live := fun _ => true },
    dct.buckets, ⟨?_, ?_, fun _ _ => rfl, nodup⟩, ?_⟩
  · refine List.ext_getElem? fun i => ?_
    simp [List.getElem?_mapIdx, Function.comp_def]
  · intro i lst bucket
    simp only [List.getElem?_mapIdx, Option.map_eq_some_iff] at bucket
    obtain ⟨slot, _, _, _, rfl⟩ := bucket
    exact hold.holds i
  · have same : mapSlots (id : K × V → K × V) dct.buckets = dct.buckets := by
      simp [mapSlots]
    rw [DictHeap.value]
    dsimp only
    rw [same]

/-! ## Reachable dictionaries -/

/-- From any reachable dictionary, in any memory that holds it. -/
theorem fkDictIter_iterates_iff [DecidableEq N] (lawful : eop.Lawful) (ops : List (DictOp K V))
    (heap : DictHeap N K V)
    (represents : heap.Represents (answers (dictStep eop) fkDictCreate ops).2) (chosen : Nat → Bool)
    (number : Nat) (rand : number < 2 ^ 31) :
    DictHeap.Iterates eop heap (answers (dictStep eop) fkDictCreate ops).2 chosen number ↔
      (answers (dictStep eop) fkDictCreate ops).2.used < 2 ^ 31 ∨ number ≠ 2 ^ 31 - 1 := by
  have wf := (fkDict_finite_map lawful ops).2.2
  generalize (answers (dictStep eop) fkDictCreate ops).2 = dct at represents wf ⊢
  rw [← DictHeap.fkDictRandom_iff wf rand]
  constructor
  · intro iterates positive
    obtain ⟨elt, member, picked⟩ := iterates.random positive
    exact ⟨elt, member, (DictHeap.fkDictRandom_eq represents wf number).symm.trans picked⟩
  · intro random
    refine ⟨?_, ⟨wf.count.symm, wf.distinct⟩, fun positive => ?_⟩
    · obtain ⟨ids, layout, rfl⟩ := represents
      have left : nodeIterBegin.left ids [] = contents ids := rfl
      have elements := DictHeap.Layout.elements heap ids
      have enough : (nodeIterBegin.left ids []).length < (heap.value ids).used + 1 := by
        rw [wf.count, elements, List.length_map, left]
        exact Nat.lt_succ_self _
      obtain ⟨final, visited, _⟩ :=
        @DictHeap.visitNodes_eq _ _ _ heap ids eop _ [] _ lawful chosen _ layout wf
          (nodeIterBegin_ahead ids) enough
      refine ⟨final, ?_⟩
      rw [visited, elements, left, List.map_map]
      rfl
    · obtain ⟨elt, member, picked⟩ := random positive
      exact ⟨elt, member, (DictHeap.fkDictRandom_eq represents wf number).trans picked⟩

/-- Two of three elements are removed while they are visited. -/
theorem fkDictIter_iterates_iff_removing :
    let ops : List (DictOp Bytes Nat) :=
      [.add (ascii "a") 1, .add (ascii "b") 2, .add (ascii "c") 3, .add (ascii "d") 4,
        .remove (ascii "b")]
    ∃ heap : DictHeap (Bytes × Nat) Bytes Nat,
      heap.Represents (answers (dictStep dbDictEop) fkDictCreate ops).2 ∧
      DictHeap.Iterates dbDictEop heap (answers (dictStep dbDictEop) fkDictCreate ops).2
        (fun count => count != 1) 5 := by
  intro ops
  have wf := (fkDict_finite_map dbDictEop_lawful ops).2.2
  obtain ⟨heap, represents⟩ := wf.exists_heap dbDictEop_lawful
  exact ⟨heap, represents, (fkDictIter_iterates_iff dbDictEop_lawful ops heap represents
    (fun count => count != 1) 5 (by decide)).mpr (.inl (by decide))⟩

theorem answers_adds {elts : List (Bytes × V)} {dct : FkDict Bytes V} :
    (answers (dictStep dbDictEop) dct (elts.map fun elt => .add elt.1 elt.2)).2 =
      elts.foldl (fun dct elt => (fkDictAdd dbDictEop dct elt.1 elt.2).2) dct := by
  induction elts generalizing dct with
  | nil => rfl
  | cons elt rest ih =>
      rw [List.map_cons, answers, List.foldl_cons]
      exact ih

/-- Numbered keys. -/
def numberedElts (count : Nat) : List (Bytes × Unit) :=
  (List.range count).map fun i => (Lib.Little.encode 4 i, ())

theorem numberedElts_distinct {count : Nat} (few : count ≤ 256 ^ 4) :
    Distinct dbDictEop.Same (numberedElts count) := by
  refine List.pairwise_map.mpr
    (List.pairwise_lt_range.imp_of_mem fun {first second} inFirst inSecond less same => ?_)
  have bytes := congrArg Lib.Little.decode (dbDictEop_same.mp same)
  dsimp only at bytes
  rw [List.mem_range] at inFirst inSecond
  rw [Lib.Little.decode_encode (by omega), Lib.Little.decode_encode (by omega)] at bytes
  omega

/-- A dictionary of any number of elements up to 2 ^ 32 is reached by adding them. -/
theorem numberedElts_reached {count : Nat} (few : count ≤ 256 ^ 4) :
    (answers (dictStep dbDictEop) fkDictCreate
      ((numberedElts count).map fun elt => .add elt.1 elt.2)).2.used = count := by
  obtain ⟨wf, perm⟩ := fkDictOfElts_spec (numberedElts_distinct few)
  have reached : (answers (dictStep dbDictEop) fkDictCreate
      ((numberedElts count).map fun elt => .add elt.1 elt.2)).2 =
      fkDictOfElts (numberedElts count) := answers_adds
  rw [reached, wf.count, perm.length_eq, numberedElts, List.length_map, List.length_range]

/-- With 2 ^ 31 elements and the largest result of `rand()` no element is returned. -/
theorem random_overflows {ops : List (DictOp Bytes Unit)}
    (used : (answers (dictStep dbDictEop) fkDictCreate ops).2.used = 2 ^ 31) :
    ∃ heap : DictHeap (Bytes × Unit) Bytes Unit,
      heap.Represents (answers (dictStep dbDictEop) fkDictCreate ops).2 ∧
      (answers (dictStep dbDictEop) fkDictCreate ops).2.used = 2 ^ 31 ∧
        heap.fkDictRandom (2 ^ 31 - 1) = none ∧
      ∀ chosen, ¬ DictHeap.Iterates dbDictEop heap (answers (dictStep dbDictEop) fkDictCreate ops).2
        chosen (2 ^ 31 - 1) := by
  have wf := (fkDict_finite_map dbDictEop_lawful ops).2.2
  generalize (answers (dictStep dbDictEop) fkDictCreate ops).2 = dct at used wf ⊢
  obtain ⟨heap, represents⟩ := wf.exists_heap dbDictEop_lawful
  have nothing : heap.fkDictRandom (2 ^ 31 - 1) = none := by
    have count : fkDictLen dct = 2 ^ 31 := used
    have negative : (toInt32 ((2 ^ 31 - 1) % 2 ^ 31 + 1 : Nat)).toNat = 0 := by decide
    rw [DictHeap.fkDictRandom_eq represents wf, fkDictRandom, count, if_neg (by decide), negative]
    rfl
  refine ⟨heap, represents, used, nothing, fun chosen iterates => ?_⟩
  obtain ⟨elt, _, picked⟩ := iterates.random (by rw [used]; decide)
  rw [nothing] at picked
  cases picked

theorem fkDictRandom_overflows :
    let ops : List (DictOp Bytes Unit) := (numberedElts (2 ^ 31)).map fun elt => .add elt.1 elt.2
    ∃ heap : DictHeap (Bytes × Unit) Bytes Unit,
      heap.Represents (answers (dictStep dbDictEop) fkDictCreate ops).2 ∧
      (answers (dictStep dbDictEop) fkDictCreate ops).2.used = 2 ^ 31 ∧
        heap.fkDictRandom (2 ^ 31 - 1) = none ∧
      ∀ chosen, ¬ DictHeap.Iterates dbDictEop heap (answers (dictStep dbDictEop) fkDictCreate ops).2
        chosen (2 ^ 31 - 1) := by
  have few : 2 ^ 31 ≤ 256 ^ 4 := by omega
  exact random_overflows (numberedElts_reached few)

end Freekick
