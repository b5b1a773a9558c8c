import Freekick.Base.RawList
import Freekick.Base.Util
import Freekick.Lib.Steps

/-!
# Lists: `fk_list.c`

The node of a list points to data.  Sorted insertion searches from both ends at once.
-/

namespace Freekick

open Lib.Nodes Lib.Steps

/-- `fk_node_op_t`, but for `data_free`.  A function may be missing. -/
structure FkNodeOp (D : Type) where
  dataCopy : Option (D → D)
  dataCmp : Option (D → D → Int)

structure FkList (N D : Type) extends RawList N where
  nop : FkNodeOp D

/-- The nodes with their links and data. -/
structure FkNodes (N D : Type) where
  store : NodeStore N
  data : N → D

/-- `pos` of the insertion, with the cursor that it is about. -/
inductive SortedPos (N : Type) where
  | low (nd : Option N)
  | high (nd : N)
  deriving DecidableEq, Repr

variable {N D : Type} [DecidableEq N]

def defaultNop : FkNodeOp D := ⟨none, none⟩

def fkListCreate (nop : Option (FkNodeOp D)) : FkList N D :=
  { RawList.fkRawlistInit with nop := nop.getD defaultNop }

omit [DecidableEq N] in
/-- The `while` loop of `fk_list_insert_sorted_only`, which tests the lower cursor only. -/
def sortedLoop (dataCmp : D → D → Int) (mem : FkNodes N D) (nd : N) :
    Nat → Option N → Option N → Option (SortedPos N)
  | 0, _, _ => none
  | _ + 1, none, _ => some (.low none)
  | fuel + 1, some low, high =>
      if 0 ≤ dataCmp (mem.data low) (mem.data nd) then some (.low (some low))
      else
        match high with
        | none => none
        | some high =>
            if dataCmp (mem.data high) (mem.data nd) ≤ 0 then some (.high high)
            else sortedLoop dataCmp mem nd fuel (mem.store low).next (mem.store high).prev

/-- "use low: before low" -/
def insertBefore (store : NodeStore N) (lst : RawList N) (nd : N) (low : Option N) :
    Option (NodeStore N × RawList N) :=
  match low with
  | none => none
  | some low =>
      if some low = lst.head then
        let store := setPrev store nd none
        some (setNext (setPrev store low (some nd)) nd (some low),
          { lst with head := some nd, len := lst.len + 1 })
      else
        match (store low).prev with
        | none => none
        | some before =>
            let store := setNext store before (some nd)
            let store := setPrev store nd (store low).prev
            some (setNext (setPrev store low (some nd)) nd (some low),
              { lst with len := lst.len + 1 })

/-- "use high: behind high" -/
def insertBehind (store : NodeStore N) (lst : RawList N) (nd high : N) :
    Option (NodeStore N × RawList N) :=
  if some high = lst.tail then
    let store := setNext store nd none
    some (setNext (setPrev store nd (some high)) high (some nd),
      { lst with tail := some nd, len := lst.len + 1 })
  else
    match (store high).next with
    | none => none
    | some behind =>
        let store := setPrev store behind (some nd)
        let store := setNext store nd (store high).next
        some (setNext (setPrev store nd (some high)) high (some nd),
          { lst with len := lst.len + 1 })

/-- The loop is left before its cursors have gone through the list. -/
def fkListInsertSortedOnly (mem : FkNodes N D) (lst : FkList N D) (nd : N) :
    Option (FkNodes N D × FkList N D) :=
  let done := fun (made : NodeStore N × RawList N) =>
    ({ mem with store := made.1 }, { made.2 with nop := lst.nop })
  if lst.len = 0 then
    some (done (setNext (setPrev mem.store nd none) nd none,
      { head := some nd, tail := some nd, len := lst.len + 1 }))
  else do
    let dataCmp ← lst.nop.dataCmp
    match ← sortedLoop dataCmp mem nd (lst.len + 1) lst.head lst.tail with
    | .low low => (insertBefore mem.store lst.toRawList nd low).map done
    | .high high => (insertBehind mem.store lst.toRawList nd high).map done

/-- The new node is where the allocator says. -/
def fkListSortedInsert (mem : FkNodes N D) (lst : FkList N D) (alloc : N) (val : D) :
    Option (FkNodes N D × FkList N D) :=
  fkListInsertSortedOnly
    { mem with
      data := Function.update mem.data alloc (lst.nop.dataCopy.elim val fun copy => copy val) }
    lst alloc

/-- No node has greater data than a later one. -/
def DataSorted (dataCmp : D → D → Int) (data : N → D) (nodes : List N) : Prop :=
  nodes.Pairwise fun first second => dataCmp (data first) (data second) ≤ 0

/-- The new node belongs between these two parts of the list. -/
inductive SortedPos.Between (dataCmp : D → D → Int) (data : N → D) (nd : N) :
    SortedPos N → List N → List N → Prop where
  | low {front back : List N} {low : N} (less : ∀ other ∈ front, dataCmp (data other) (data nd) < 0)
      (here : 0 ≤ dataCmp (data low) (data nd)) : Between dataCmp data nd (.low (some low)) front
      (low :: back)
  | high {front back : List N} {high : N} (here : dataCmp (data high) (data nd) ≤ 0)
      (greater : ∀ other ∈ back, 0 < dataCmp (data other) (data nd)) :
      Between dataCmp data nd (.high high) (front ++ [high]) back

variable {dataCmp : D → D → Int} {mem : FkNodes N D} {store : NodeStore N} {data : N → D}
  {lst : RawList N} {head tail : Option N} {front mid back nodes : List N} {nd : N}

/-! ## Where the node goes -/

omit [DecidableEq N] in
/-- The cursors have gone through equally many nodes, smaller ones from the head and greater
ones from the tail. -/
theorem sortedLoop_between {fuel : Nat} (linked : Linked mem.store head tail (front ++ mid ++ back))
    (rounds : mid.length < fuel) (even : front.length = back.length)
    (nonempty : front ++ mid ++ back ≠ [])
    (less : ∀ other ∈ front, dataCmp (mem.data other) (mem.data nd) < 0)
    (greater : ∀ other ∈ back, 0 < dataCmp (mem.data other) (mem.data nd)) :
    ∃ pos first second, sortedLoop dataCmp mem nd fuel (mid ++ back).head?
      (front ++ mid).getLast? = some pos ∧ front ++ mid ++ back = first ++ second ∧
      pos.Between dataCmp mem.data nd first second := by
  induction fuel generalizing front mid back with
  | zero => exact absurd rounds (Nat.not_lt_zero _)
  | succ fuel ih =>
      cases mid with
      | nil =>
          -- The cursors have crossed: the lower one is at a node that the upper one has passed.
          cases back with
          | nil =>
              rw [List.length_nil, List.length_eq_zero_iff] at even
              subst even
              exact absurd rfl nonempty
          | cons low back =>
              have above := Int.le_of_lt (greater low (List.mem_cons_self ..))
              refine ⟨.low (some low), front, low :: back, if_pos above, ?_, .low less above⟩
              rw [List.append_nil]
      | cons low mid =>
          have atLow : Linked mem.store head tail (front ++ low :: (mid ++ back)) :=
            by simpa using linked
          have next := atLow.next_eq
          by_cases above : 0 ≤ dataCmp (mem.data low) (mem.data nd)
          · refine ⟨.low (some low), front, low :: (mid ++ back), if_pos above, ?_, .low less above⟩
            rw [List.append_assoc, List.cons_append]
          · rcases List.eq_nil_or_concat' mid with rfl | ⟨mid, high, rfl⟩
            · have below : dataCmp (mem.data low) (mem.data nd) ≤ 0 := by omega
              refine ⟨.high low, front ++ [low], back, ?_, rfl, .high below greater⟩
              rw [List.getLast?_concat]
              exact (if_neg above).trans (if_pos below)
            · have atHigh : Linked mem.store head tail (front ++ low :: mid ++ high :: back) :=
                by simpa using linked
              have prev := atHigh.prev_eq
              have last : (front ++ low :: (mid ++ [high])).getLast? = some high := by
                rw [← List.cons_append, ← List.append_assoc, List.getLast?_concat]
              rw [last]
              by_cases below : dataCmp (mem.data high) (mem.data nd) ≤ 0
              · refine ⟨.high high, front ++ low :: mid ++ [high], back, ?_, by simp,
                  .high below greater⟩
                exact (if_neg above).trans (if_pos below)
              · have fewer : mid.length < fuel := by
                  simp only [List.length_cons, List.length_append] at rounds
                  omega
                have inner : Linked mem.store head tail (front ++ [low] ++ mid ++ high :: back) :=
                  by simpa using linked
                obtain ⟨pos, first, second, found, same, between⟩ :=
                  ih inner fewer (by simp [even]) (by simp)
                    (List.forall_mem_append.mpr ⟨less, List.forall_mem_singleton.mpr (by omega)⟩)
                    (List.forall_mem_cons.mpr ⟨by omega, greater⟩)
                refine ⟨pos, first, second, ?_, by rw [← same]; simp, between⟩
                rw [List.append_assoc, List.singleton_append, ← prev] at found
                simp only [List.append_assoc, List.singleton_append] at next
                rw [← next] at found
                exact (if_neg above).trans ((if_neg below).trans found)

/-! ## The two insertions -/

theorem insertBefore_splices {low : N} (holds : lst.Holds store (front ++ low :: back))
    (new : nd ∉ front ++ low :: back) :
    ∃ changed, insertBefore store lst nd (some low) = some (changed,
        { lst with head := (front ++ nd :: low :: back).head?, len := lst.len + 1 }) ∧
      Splices store changed front nd (low :: back) := by
  have isHead := (linked_iff.mp holds.linked).1
  have prev := holds.linked.prev_eq
  have notLow : low ≠ nd := fun same => new (same ▸ List.mem_append_right _ (List.mem_cons_self ..))
  have outside : low ∉ front := holds.linked.around.1.1
  simp only [insertBefore, isHead, prev]
  rcases List.eq_nil_or_concat' front with rfl | ⟨start, before, rfl⟩
  · rw [List.nil_append, List.head?_cons, if_pos rfl]
    refine ⟨_, rfl, ?_, nofun, fun other first => ?_, fun other notNew _ notFirst => ?_⟩
    · simp [setPrev_of_ne notLow.symm]
    · cases first
      simp [setNext_of_ne notLow, setPrev_of_ne notLow]
    · have apart : other ≠ low := fun same => notFirst (same ▸ rfl)
      rw [setNext_of_ne notNew, setPrev_of_ne apart, setPrev_of_ne notNew]
  · have last : (start ++ [before]).getLast? = some before := List.getLast?_concat
    have notBefore : before ≠ nd := fun same => new (by simp [same])
    have apart : low ≠ before := fun same => outside (by simp [same])
    have front : (start ++ [before] ++ low :: back).head? =
        (start ++ [before] ++ nd :: low :: back).head? := by
      cases start <;> rfl
    have notHead : some low ≠ (start ++ [before] ++ low :: back).head? := by
      intro same
      refine outside (List.mem_of_head? ?_)
      rw [same]
      cases start <;> rfl
    rw [if_neg notHead, last, ← front, ← isHead]
    refine ⟨_, rfl, ?_, fun other same => ?_, fun other first => ?_,
      fun other notNew notLast notFirst => ?_⟩
    · simp [setPrev_of_ne notLow.symm, setNext_of_ne apart, prev, last]
    · rw [last] at same
      cases same
      simp [setNext_of_ne notBefore, setPrev_of_ne notBefore, setPrev_of_ne apart.symm]
    · cases first
      simp [setNext_of_ne notLow, setNext_of_ne apart, setPrev_of_ne notLow]
    · rw [last] at notLast
      have notLow : other ≠ low := fun same => notFirst (same ▸ rfl)
      have notBefore : other ≠ before := fun same => notLast (same ▸ rfl)
      rw [setNext_of_ne notNew, setPrev_of_ne notLow, setPrev_of_ne notNew, setNext_of_ne notBefore]

theorem insertBehind_splices {high : N} (holds : lst.Holds store (front ++ [high] ++ back))
    (new : nd ∉ front ++ [high] ++ back) :
    ∃ changed, insertBehind store lst nd high =
        some (changed,
          { lst with tail := (front ++ [high] ++ nd :: back).getLast?, len := lst.len + 1 }) ∧
      Splices store changed (front ++ [high]) nd back := by
  have isTail := (linked_iff.mp holds.linked).2.1
  have atHigh : Linked store lst.head lst.tail (front ++ high :: back) :=
    by simpa using holds.linked
  have next := atHigh.next_eq
  have last : (front ++ [high]).getLast? = some high := List.getLast?_concat
  have notHigh : high ≠ nd := fun same => new (by simp [same])
  have outside : high ∉ back := atHigh.around.1.2
  simp only [insertBehind, isTail, next]
  cases back with
  | nil =>
      rw [List.append_nil, last, if_pos rfl, List.getLast?_concat]
      refine ⟨_, rfl, ?_, fun other same => ?_, nofun, fun other notNew notLast _ => ?_⟩
      · simp [setNext_of_ne notHigh.symm, last]
      · rw [last] at same
        cases same
        simp [setPrev_of_ne notHigh, setNext_of_ne notHigh]
      · rw [last] at notLast
        have apart : other ≠ high := fun same => notLast (same ▸ rfl)
        rw [setNext_of_ne apart, setPrev_of_ne notNew, setNext_of_ne notNew]
  | cons behind rest =>
      have notBehind : behind ≠ nd := fun same => new (by simp [same])
      have apart : high ≠ behind := fun same => outside (by simp [same])
      have back : (front ++ [high] ++ behind :: rest).getLast? =
          (front ++ [high] ++ nd :: behind :: rest).getLast? := by
        simp [List.getLast?_append, List.getLast?_cons]
      have notTail : some high ≠ (front ++ [high] ++ behind :: rest).getLast? := by
        intro same
        refine outside (List.mem_of_getLast? ?_)
        rw [same, List.getLast?_append_cons]
      rw [if_neg notTail, ← back, ← isTail]
      refine ⟨_, rfl, ?_, fun other same => ?_, fun other first => ?_,
        fun other notNew notLast notFirst => ?_⟩
      · simp [setNext_of_ne notHigh.symm, setPrev_of_ne apart, next, last]
      · rw [last] at same
        cases same
        simp [setPrev_of_ne notHigh, setNext_of_ne notHigh, setPrev_of_ne apart]
      · cases first
        simp [setNext_of_ne notBehind, setPrev_of_ne notBehind, setNext_of_ne apart.symm]
      · rw [last] at notLast
        have notHigh : other ≠ high := fun same => notLast (same ▸ rfl)
        have notBehind : other ≠ behind := fun same => notFirst (same ▸ rfl)
        rw [setNext_of_ne notHigh, setPrev_of_ne notNew, setNext_of_ne notNew,
          setPrev_of_ne notBehind]

/-- What an insertion into a list leaves. -/
structure RawList.Inserted (made : RawList N) (store changed : NodeStore N) (front : List N)
    (nd : N) (back : List N) : Prop where
  holds : made.Holds changed (front ++ nd :: back)
  frame : ∀ other, other ≠ nd → other ∉ front ++ back → changed other = store other

omit [DecidableEq N] in
theorem Lib.Nodes.Splices.inserted {changed : NodeStore N}
    (splices : Splices store changed front nd back)
    (holds : lst.Holds store (front ++ back)) (new : nd ∉ front ++ back) {made : RawList N}
    (head : made.head = (front ++ nd :: back).head?)
    (tail : made.tail = (front ++ nd :: back).getLast?) (len : made.len = lst.len + 1) :
    made.Inserted store changed front nd back where
  holds := by
    refine ⟨?_, ?_⟩
    · rw [head, tail]
      exact splices.linked holds.linked new
    · rw [len, holds.len]
      simp only [List.length_append, List.length_cons]
      omega
  frame := fun _ apart outside => splices.frame apart outside

theorem insertBefore_spec {low : N} (holds : lst.Holds store (front ++ low :: back))
    (new : nd ∉ front ++ low :: back) :
    ∃ changed made, insertBefore store lst nd (some low) = some (changed, made) ∧
      made.Inserted store changed front nd (low :: back) := by
  have isTail := (linked_iff.mp holds.linked).2.1
  obtain ⟨changed, inserted, splices⟩ := insertBefore_splices holds new
  refine ⟨changed, _, inserted, splices.inserted holds new rfl ?_ rfl⟩
  rw [isTail, List.getLast?_append_cons, List.getLast?_append_cons, List.getLast?_cons_cons]

theorem insertBehind_spec {high : N} (holds : lst.Holds store (front ++ [high] ++ back))
    (new : nd ∉ front ++ [high] ++ back) :
    ∃ changed made, insertBehind store lst nd high = some (changed, made) ∧
      made.Inserted store changed (front ++ [high]) nd back := by
  have isHead := (linked_iff.mp holds.linked).1
  obtain ⟨changed, inserted, splices⟩ := insertBehind_splices holds new
  refine ⟨changed, _, inserted, splices.inserted holds new ?_ rfl rfl⟩
  rw [isHead]
  cases front <;> rfl

/-! ## Order -/

omit [DecidableEq N] in
theorem DataSorted.insert (sorted : DataSorted dataCmp data (front ++ back))
    (below : ∀ other ∈ front, dataCmp (data other) (data nd) ≤ 0)
    (above : ∀ other ∈ back, dataCmp (data nd) (data other) ≤ 0) : DataSorted dataCmp data
    (front ++ nd :: back) := by
  obtain ⟨first, second, across⟩ := List.pairwise_append.mp sorted
  refine List.pairwise_append.mpr ⟨first, List.pairwise_cons.mpr ⟨above, second⟩,
    fun one inFront other either => ?_⟩
  rcases List.mem_cons.mp either with rfl | inBack
  · exact below one inFront
  · exact across one inFront other inBack

omit [DecidableEq N] in
theorem SortedPos.Between.sorted (order : LeafOrder dataCmp) {pos : SortedPos N}
    (between : pos.Between dataCmp data nd front back)
    (sorted : DataSorted dataCmp data (front ++ back)) : DataSorted dataCmp data
    (front ++ nd :: back) := by
  cases between with
  | @low front back low less here =>
      have least : dataCmp (data nd) (data low) ≤ 0 := (order.swap _ _).mpr here
      obtain ⟨rest, _⟩ := List.pairwise_cons.mp (List.pairwise_append.mp sorted).2.1
      refine sorted.insert (fun other member => Int.le_of_lt (less other member))
        (List.forall_mem_cons.mpr ⟨least, fun other member => ?_⟩)
      exact order.trans _ _ _ least (rest other member)
  | @high front back high here greater =>
      have earlier := (List.pairwise_append.mp (List.pairwise_append.mp sorted).1).2.2
      refine sorted.insert (List.forall_mem_append.mpr
        ⟨fun other member => ?_, List.forall_mem_singleton.mpr here⟩)
        fun other member => order.of_pos (greater other member)
      exact order.trans _ _ _ (earlier other member high (List.mem_singleton_self high)) here

/-- The search finds a place, and the node is linked there. -/
theorem fkListInsertSortedOnly_inserted (lst : FkList N D)
    (compares : lst.nop.dataCmp = some dataCmp) (holds : lst.Holds mem.store nodes)
    (new : nd ∉ nodes) :
    ∃ (after : NodeStore N) (made : RawList N) (pos : SortedPos N) (front back : List N),
      fkListInsertSortedOnly mem lst nd = some
        ({ mem with store := after }, { made with nop := lst.nop }) ∧
      nodes = front ++ back ∧ made.Inserted mem.store after front nd back ∧
      (nodes ≠ [] → SortedPos.Between dataCmp mem.data nd pos front back) := by
  rw [fkListInsertSortedOnly]
  cases nodes with
  | nil =>
      have empty : lst.len = 0 := holds.len
      have splices : Splices mem.store (setNext (setPrev mem.store nd none) nd none) [] nd [] :=
        .alone (by simp) fun other apart => by rw [setNext_of_ne apart, setPrev_of_ne apart]
      rw [if_pos empty]
      exact ⟨_, _, .low none, [], [], rfl, rfl, splices.inserted holds new rfl rfl rfl,
        fun nonempty => absurd rfl nonempty⟩
  | cons first rest =>
      have nonempty : lst.len ≠ 0 := by
        rw [holds.len]
        exact Nat.succ_ne_zero _
      obtain ⟨isHead, isTail, _⟩ := linked_iff.mp holds.linked
      have whole : Linked mem.store lst.head lst.tail ([] ++ (first :: rest) ++ []) := by
        rw [List.append_nil]
        exact holds.linked
      have rounds : (first :: rest).length < lst.len + 1 := by
        rw [holds.len]
        exact Nat.lt_succ_self _
      obtain ⟨pos, front, back, found, same, between⟩ :=
        @sortedLoop_between N D dataCmp mem lst.head lst.tail [] (first :: rest) [] nd
          (lst.len + 1) whole rounds rfl (by simp) (by simp) (by simp)
      rw [List.append_nil, List.nil_append] at same
      rw [List.append_nil, List.nil_append, ← isHead, ← isTail] at found
      rw [if_neg nonempty, compares]
      simp only [Option.bind_eq_bind, Option.bind_some, found]
      rw [same] at holds new
      cases between with
      | low less here =>
          obtain ⟨after, made, inserted, kept⟩ := insertBefore_spec holds new
          refine ⟨after, made, _, _, _, ?_, same, kept, fun _ => .low less here⟩
          dsimp only
          rw [inserted]
          rfl
      | high here greater =>
          obtain ⟨after, made, inserted, kept⟩ := insertBehind_spec holds new
          refine ⟨after, made, _, _, _, ?_, same, kept, fun _ => .high here greater⟩
          dsimp only
          rw [inserted]
          rfl

/-- A node is put into a sorted list. -/
theorem fkListInsertSortedOnly_sorted (order : LeafOrder dataCmp) (mem : FkNodes N D)
    (lst : FkList N D) (nodes : List N) (nd : N) (compares : lst.nop.dataCmp = some dataCmp)
    (holds : lst.Holds mem.store nodes) (sorted : DataSorted dataCmp mem.data nodes)
    (new : nd ∉ nodes) :
    ∃ after made front back, fkListInsertSortedOnly mem lst nd = some (after, made) ∧
      nodes = front ++ back ∧ made.Inserted mem.store after.store front nd back ∧
      DataSorted dataCmp after.data (front ++ nd :: back) ∧
      after.data = mem.data ∧ made.nop = lst.nop := by
  obtain ⟨after, made, pos, front, back, inserted, same, kept, between⟩ :=
    fkListInsertSortedOnly_inserted lst compares holds new
  refine ⟨_, _, front, back, inserted, same, kept, ?_, rfl, rfl⟩
  cases nodes with
  | nil =>
      obtain ⟨rfl, rfl⟩ := List.append_eq_nil_iff.mp same.symm
      exact List.pairwise_singleton _ nd
  | cons first rest => exact (between (List.cons_ne_nil first rest)).sorted order (same ▸ sorted)

/-- Equal numbers are there already, and the new one goes before them. -/
theorem fkListInsertSortedOnly_sorted_equal :
    let dataCmp := fun first second : Int => first - second
    let store : NodeStore Nat := fun nd => match nd with
      | 1 => ⟨none, some 2⟩
      | 2 => ⟨some 1, some 3⟩
      | 3 => ⟨some 2, none⟩
      | _ => ⟨some 9, some 9⟩
    let mem : FkNodes Nat Int := ⟨store, fun nd => if nd = 1 then 10 else 20⟩
    let lst : FkList Nat Int :=
      { head := some 1, tail := some 3, len := 3, nop := ⟨none, some dataCmp⟩ }
    ∃ after made front back, fkListInsertSortedOnly mem lst 4 = some (after, made) ∧
      [1, 2, 3] = front ++ back ∧ made.Inserted mem.store after.store front 4 back ∧
      DataSorted dataCmp after.data (front ++ 4 :: back) ∧
      after.data = mem.data ∧ made.nop = lst.nop := by
  intro dataCmp store mem lst
  have order : LeafOrder dataCmp := by
    constructor <;> intros <;> simp only [dataCmp] at * <;> omega
  have holds : lst.Holds mem.store [1, 2, 3] :=
    ⟨⟨⟨rfl, rfl, rfl, rfl⟩, ⟨rfl, rfl, rfl, rfl⟩, by decide⟩, rfl⟩
  have sorted : DataSorted dataCmp mem.data [1, 2, 3] := by
    unfold DataSorted
    decide
  exact fkListInsertSortedOnly_sorted order mem lst [1, 2, 3] 4 rfl holds sorted (by decide)

omit [DecidableEq N] in
theorem DataSorted.congr {changed : N → D} (sorted : DataSorted dataCmp data nodes)
    (same : ∀ nd ∈ nodes, changed nd = data nd) :
    DataSorted dataCmp changed nodes := by
  refine List.Pairwise.imp_of_mem (fun first second le => ?_) sorted
  rwa [same _ first, same _ second]

/-- What `fk_node_data_set` stores. -/
def FkNodeOp.copied (nop : FkNodeOp D) (val : D) : D := nop.dataCopy.elim val fun copy => copy val

theorem fkListSortedInsert_sorted (order : LeafOrder dataCmp) {lst : FkList N D} {alloc : N}
    (val : D) (compares : lst.nop.dataCmp = some dataCmp)
    (holds : lst.Holds mem.store nodes) (sorted : DataSorted dataCmp mem.data nodes)
    (new : alloc ∉ nodes) :
    ∃ after made front back, fkListSortedInsert mem lst alloc val = some (after, made) ∧
      nodes = front ++ back ∧ made.Inserted mem.store after.store front alloc back ∧
      DataSorted dataCmp after.data (front ++ alloc :: back) ∧
      after.data = Function.update mem.data alloc (lst.nop.copied val) ∧ made.nop = lst.nop := by
  have kept : DataSorted dataCmp (Function.update mem.data alloc (lst.nop.copied val)) nodes := by
    refine sorted.congr fun other member => Function.update_of_ne ?_ ..
    rintro rfl
    exact new member
  obtain ⟨after, made, rest⟩ := fkListInsertSortedOnly_sorted order
    { mem with data := Function.update mem.data alloc (lst.nop.copied val) } lst nodes alloc
      compares holds kept new
  exact ⟨after, made, rest⟩

def sortedInsertStep (state : FkNodes N D × FkList N D) (val : N × D) :
    Option (FkNodes N D × FkList N D) :=
  fkListSortedInsert state.1 state.2 val.1 val.2

theorem sortedInsertStep_run (order : LeafOrder dataCmp) {lst : FkList N D} {vals : List (N × D)}
    (compares : lst.nop.dataCmp = some dataCmp) (holds : lst.Holds mem.store nodes)
    (sorted : DataSorted dataCmp mem.data nodes) (fresh : (nodes ++ vals.map Prod.fst).Nodup) :
    ∃ final after, run sortedInsertStep (mem, lst) vals = some final ∧
      final.2.Holds final.1.store after ∧ DataSorted dataCmp final.1.data after ∧
      after.Perm (nodes ++ vals.map Prod.fst) := by
  induction vals generalizing mem lst nodes with
  | nil => exact ⟨(mem, lst), nodes, rfl, holds, sorted, by simp⟩
  | cons val vals ih =>
      rw [List.map_cons, List.nodup_middle, List.nodup_cons, List.mem_append, not_or] at fresh
      obtain ⟨⟨new, unique⟩, fresh⟩ := fresh
      obtain ⟨after, made, front, back, stepped, rfl, inserted, kept, _, same⟩ :=
        fkListSortedInsert_sorted order val.2 compares holds sorted new
      have fresh' : (front ++ val.1 :: back ++ vals.map Prod.fst).Nodup := by
        rw [List.append_assoc, List.cons_append, List.nodup_middle, List.nodup_cons,
          ← List.append_assoc, List.mem_append, not_or]
        exact ⟨⟨new, unique⟩, fresh⟩
      obtain ⟨final, last, reached, final_holds, final_sorted, perm⟩ :=
        ih (same ▸ compares) inserted.holds kept fresh'
      refine ⟨final, last, ?_, final_holds, final_sorted, perm.trans ?_⟩
      · rw [run, sortedInsertStep, stepped]
        exact reached
      · simp only [List.append_assoc, List.cons_append, List.map_cons]
        exact List.perm_middle.symm.append_left front

/-- A list that is made of sorted insertions only is sorted, and it has all the nodes. -/
theorem fkListSortedInsert_run (order : LeafOrder dataCmp) (mem : FkNodes N D) (nop : FkNodeOp D)
    (compares : nop.dataCmp = some dataCmp) (vals : List (N × D))
    (fresh : (vals.map Prod.fst).Nodup) :
    ∃ final nodes, run sortedInsertStep (mem, fkListCreate (some nop)) vals = some final ∧
      final.2.Holds final.1.store nodes ∧ DataSorted dataCmp final.1.data nodes ∧
      nodes.Perm (vals.map Prod.fst) := by
  have empty : (fkListCreate (some nop) : FkList N D).Holds mem.store [] :=
    ⟨linked_nil mem.store, rfl⟩
  exact sortedInsertStep_run order compares empty List.Pairwise.nil fresh

end Freekick
