import Freekick.Lib.Nodes
import Mathlib.Logic.Function.Basic

/-!
# Raw lists: the macros of `fk_list.h`

The lists share one store of nodes, and a node is linked by fields of its own.  `none` as
the result of a macro is a null pointer dereferenced.
-/

namespace Freekick

open Lib.Nodes

/-- `fk_rawlist_def`. -/
structure RawList (N : Type) where
  head : Option N
  tail : Option N
  len : Nat
  deriving DecidableEq, Repr

/-- The nodes with their links. -/
abbrev NodeStore (N : Type) := N → Links N

variable {N : Type} [DecidableEq N]

def setPrev (store : NodeStore N) (nd : N) (link : Option N) : NodeStore N :=
  Function.update store nd { store nd with prev := link }

def setNext (store : NodeStore N) (nd : N) (link : Option N) : NodeStore N :=
  Function.update store nd { store nd with next := link }

def RawList.fkRawlistInit : RawList N := ⟨none, none, 0⟩

def RawList.fkRawlistInsertHead (store : NodeStore N) (lst : RawList N) (nd : N) :
    Option (NodeStore N × RawList N) :=
  if lst.len = 0 then
    some (setPrev (setNext store nd none) nd none,
      { head := some nd, tail := some nd, len := lst.len + 1 })
  else
    let store := setNext (setPrev store nd none) nd lst.head
    match lst.head with
    | none => none
    | some first =>
        some (setPrev store first (some nd), { lst with head := some nd, len := lst.len + 1 })

def RawList.fkRawlistInsertTail (store : NodeStore N) (lst : RawList N) (nd : N) :
    Option (NodeStore N × RawList N) :=
  if lst.len = 0 then
    some (setPrev (setNext store nd none) nd none,
      { head := some nd, tail := some nd, len := lst.len + 1 })
  else
    let store := setNext (setPrev store nd lst.tail) nd none
    match lst.tail with
    | none => none
    | some last =>
        some (setNext store last (some nd), { lst with tail := some nd, len := lst.len + 1 })

/-- The first of the two neighbours: `nd->prev->next`, or the head without one. -/
def unlinkPrev (store : NodeStore N) (lst : RawList N) (nd : N) : NodeStore N × RawList N :=
  match (store nd).prev with
  | some before => (setNext store before (store nd).next, lst)
  | none => (store, { lst with head := (store nd).next })

/-- The other neighbour: `nd->next->prev`, or the tail without one. -/
def unlinkNext (store : NodeStore N) (lst : RawList N) (nd : N) : NodeStore N × RawList N :=
  match (store nd).next with
  | some behind => (setPrev store behind (store nd).prev, lst)
  | none => (store, { lst with tail := (store nd).prev })

def RawList.fkRawlistRemoveAnyone (store : NodeStore N) (lst : RawList N) (nd : N) :
    NodeStore N × RawList N :=
  let (store, lst) := unlinkPrev store lst nd
  let (store, lst) := unlinkNext store lst nd
  (setNext (setPrev store nd none) nd none, { lst with len := lst.len - 1 })

/-- A list with these nodes: forward from the head, in reverse from the tail, and their number. -/
structure RawList.Holds (lst : RawList N) (store : NodeStore N) (nodes : List N) : Prop where
  linked : Linked store lst.head lst.tail nodes
  len : lst.len = nodes.length

variable {store : NodeStore N} {lst : RawList N} {nodes front back : List N} {nd : N}

@[simp] theorem setPrev_self (store : NodeStore N) (nd : N) (link : Option N) :
    setPrev store nd link nd = { store nd with prev := link } := Function.update_self ..

@[simp] theorem setNext_self (store : NodeStore N) (nd : N) (link : Option N) :
    setNext store nd link nd = { store nd with next := link } := Function.update_self ..

theorem setPrev_of_ne {other : N} (apart : other ≠ nd) (store : NodeStore N) (link : Option N) :
    setPrev store nd link other = store other := Function.update_of_ne apart ..

theorem setNext_of_ne {other : N} (apart : other ≠ nd) (store : NodeStore N) (link : Option N) :
    setNext store nd link other = store other := Function.update_of_ne apart ..

/-! ## What the macros do -/

theorem fkRawlistInsertHead_spec (holds : lst.Holds store nodes) (new : nd ∉ nodes) :
    ∃ changed after, RawList.fkRawlistInsertHead store lst nd = some (changed, after) ∧
      after.Holds changed (nd :: nodes) ∧ ∀ other, other ≠ nd → other ∉ nodes →
      changed other = store other := by
  have isHead := (linked_iff.mp holds.linked).1
  have isTail := (linked_iff.mp holds.linked).2.1
  rw [RawList.fkRawlistInsertHead]
  cases nodes with
  | nil =>
      have empty : lst.len = 0 := holds.len
      rw [if_pos empty]
      have splices : Splices store (setPrev (setNext store nd none) nd none) [] nd [] :=
        .alone (by simp) fun other apart => by rw [setPrev_of_ne apart, setNext_of_ne apart]
      refine ⟨_, _, rfl, ⟨splices.linked holds.linked new, congrArg (· + 1) empty⟩,
        fun other apart outside => splices.frame apart outside⟩
  | cons first rest =>
      have apart : first ≠ nd := fun same => new (same ▸ List.mem_cons_self ..)
      rw [if_neg (by rw [holds.len]; exact Nat.succ_ne_zero _), isHead]
      have splices : Splices store (setPrev (setNext (setPrev store nd none) nd (some first)) first
          (some nd)) [] nd (first :: rest) := by
        refine ⟨?_, nofun, fun other same => ?_, fun other notNew _ notFirst => ?_⟩
        · simp [setPrev_of_ne apart.symm]
        · cases same
          simp [setNext_of_ne apart, setPrev_of_ne apart]
        · have notFirst : other ≠ first := fun same => notFirst (same ▸ rfl)
          rw [setPrev_of_ne notFirst, setNext_of_ne notNew, setPrev_of_ne notNew]
      refine ⟨_, _, rfl, ⟨?_, congrArg (· + 1) holds.len⟩, fun other apart outside =>
        splices.frame apart outside⟩
      have linked := splices.linked holds.linked new
      rwa [List.nil_append, List.head?_cons, List.getLast?_cons_cons, ← isTail] at linked

theorem fkRawlistInsertTail_spec (holds : lst.Holds store nodes) (new : nd ∉ nodes) :
    ∃ changed after, RawList.fkRawlistInsertTail store lst nd = some (changed, after) ∧
      after.Holds changed (nodes ++ [nd]) ∧ ∀ other, other ≠ nd → other ∉ nodes →
      changed other = store other := by
  have isHead := (linked_iff.mp holds.linked).1
  have isTail := (linked_iff.mp holds.linked).2.1
  have whole : nodes ++ [] = nodes := List.append_nil nodes
  rw [RawList.fkRawlistInsertTail]
  rcases List.eq_nil_or_concat' nodes with rfl | ⟨rest, last, rfl⟩
  · have empty : lst.len = 0 := holds.len
    rw [if_pos empty]
    have splices : Splices store (setPrev (setNext store nd none) nd none) [] nd [] :=
      .alone (by simp) fun other apart => by rw [setPrev_of_ne apart, setNext_of_ne apart]
    exact ⟨_, _, rfl, ⟨splices.linked holds.linked new, congrArg (· + 1) empty⟩,
      fun other apart outside => splices.frame apart outside⟩
  · have apart : last ≠ nd :=
      fun same => new (same ▸ List.mem_append_right _ (List.mem_singleton_self _))
    have isLast : (rest ++ [last]).getLast? = some last := List.getLast?_concat
    have nonempty : lst.len ≠ 0 := by
      rw [holds.len, List.length_append]
      exact Nat.succ_ne_zero _
    rw [if_neg nonempty, isTail, isLast]
    have splices : Splices store (setNext (setNext (setPrev store nd (some last)) nd none) last
        (some nd)) (rest ++ [last]) nd [] := by
      refine ⟨?_, fun other same => ?_, nofun, fun other notNew notLast _ => ?_⟩
      · simp [setNext_of_ne apart.symm]
      · rw [isLast] at same
        cases same
        simp [setNext_of_ne apart, setPrev_of_ne apart]
      · have notLast : other ≠ last := fun same => notLast (same ▸ isLast)
        rw [setNext_of_ne notLast, setNext_of_ne notNew, setPrev_of_ne notNew]
    rw [← whole] at new
    have linked := splices.linked (whole.symm ▸ holds.linked) new
    refine ⟨_, _, rfl, ⟨?_, ?_⟩, fun other apart outside =>
      splices.frame apart (whole.symm ▸ outside)⟩
    · have front : (rest ++ [last] ++ [nd]).head? = lst.head := by
        rw [isHead]
        cases rest <;> rfl
      rwa [front, List.getLast?_concat] at linked
    · rw [List.length_append, ← holds.len]
      rfl

theorem unlinkPrev_apply (store : NodeStore N) (lst : RawList N) (nd other : N) :
    (unlinkPrev store lst nd).1 other =
      if (store nd).prev = some other then { store other with next := (store nd).next }
      else store other := by
  rw [unlinkPrev]
  cases (store nd).prev with
  | none => rfl
  | some before =>
      by_cases same : other = before
      · subst same
        simp
      · have apart : some before ≠ some other := fun equal => same (Option.some.inj equal).symm
        rw [if_neg apart]
        exact setNext_of_ne same store _

theorem unlinkNext_apply (store : NodeStore N) (lst : RawList N) (nd other : N) :
    (unlinkNext store lst nd).1 other =
      if (store nd).next = some other then { store other with prev := (store nd).prev }
      else store other := by
  rw [unlinkNext]
  cases (store nd).next with
  | none => rfl
  | some behind =>
      by_cases same : other = behind
      · subst same
        simp
      · have apart : some behind ≠ some other := fun equal => same (Option.some.inj equal).symm
        rw [if_neg apart]
        exact setPrev_of_ne same store _

theorem unlinkPrev_list (holds : lst.Holds store (front ++ nd :: back)) :
    (unlinkPrev store lst nd).2 = { lst with head := (front ++ back).head? } := by
  have isHead := (linked_iff.mp holds.linked).1
  rw [unlinkPrev, holds.linked.prev_eq, holds.linked.next_eq]
  cases front with
  | nil => rfl
  | cons first rest =>
      have same : lst.head = (first :: rest ++ back).head? := isHead
      rw [List.getLast?_cons, ← same]

theorem unlinkNext_list (isTail : lst.tail = (front ++ nd :: back).getLast?)
    (prev : (store nd).prev = front.getLast?) (next : (store nd).next = back.head?) :
    (unlinkNext store lst nd).2 = { lst with tail := (front ++ back).getLast? } := by
  rw [unlinkNext, prev, next]
  cases back with
  | nil =>
      rw [List.append_nil]
      rfl
  | cons first rest =>
      have same : lst.tail = (front ++ first :: rest).getLast? := by
        simp [isTail, List.getLast?_append, List.getLast?_cons]
      rw [← same]
      rfl

/-- A node in the middle of a list: its neighbours are linked with each other. -/
theorem fkRawlistRemoveAnyone_unsplices (holds : lst.Holds store (front ++ nd :: back)) :
    Unsplices store (RawList.fkRawlistRemoveAnyone store lst nd).1 front nd back ∧
      (RawList.fkRawlistRemoveAnyone store lst nd).2 =
        ⟨(front ++ back).head?, (front ++ back).getLast?, (front ++ back).length⟩ := by
  have isTail := (linked_iff.mp holds.linked).2.1
  have prev : (store nd).prev = front.getLast? := holds.linked.prev_eq
  have next : (store nd).next = back.head? := holds.linked.next_eq
  obtain ⟨⟨notFront, notBack⟩, nodup⟩ := holds.linked.around
  have apart := List.disjoint_of_nodup_append nodup
  have notLast : front.getLast? ≠ some nd := fun last => notFront (List.mem_of_getLast? last)
  have same : (unlinkPrev store lst nd).1 nd = store nd := by
    rw [unlinkPrev_apply, prev, if_neg notLast]
  have removed : ∀ other, other ≠ nd → (RawList.fkRawlistRemoveAnyone store lst nd).1 other =
      if back.head? = some other then
        { (unlinkPrev store lst nd).1 other with prev := front.getLast? }
      else (unlinkPrev store lst nd).1 other := by
    intro other differs
    simp only [RawList.fkRawlistRemoveAnyone]
    rw [setNext_of_ne differs, setPrev_of_ne differs, unlinkNext_apply, same, prev, next]
  refine ⟨⟨?_, fun other last => ?_, fun other first => ?_,
    fun other differs notLast notFirst => ?_⟩, ?_⟩
  · simp [RawList.fkRawlistRemoveAnyone]
  · have differs : other ≠ nd := fun equal => notFront (equal ▸ List.mem_of_getLast? last)
    rw [removed other differs, if_neg fun first => apart (List.mem_of_getLast? last)
      (List.mem_of_head? first), unlinkPrev_apply, prev, if_pos last, next]
  · have differs : other ≠ nd := fun equal => notBack (equal ▸ List.mem_of_head? first)
    rw [removed other differs, if_pos first, unlinkPrev_apply, prev,
      if_neg fun last => apart (List.mem_of_getLast? last) (List.mem_of_head? first)]
  · rw [removed other differs, if_neg notFirst, unlinkPrev_apply, prev, if_neg notLast]
  · have tail : (unlinkNext (unlinkPrev store lst nd).1 (unlinkPrev store lst nd).2 nd).2 =
        { (unlinkPrev store lst nd).2 with tail := (front ++ back).getLast? } := by
      refine unlinkNext_list ?_ ?_ ?_
      · rw [unlinkPrev_list holds, isTail]
      · rw [same, prev]
      · rw [same, next]
    have shorter : (front ++ nd :: back).length - 1 = (front ++ back).length := by
      simp
    simp only [RawList.fkRawlistRemoveAnyone]
    rw [tail, unlinkPrev_list holds, holds.len, shorter]

/-- A node is taken out of its list. -/
theorem fkRawlistRemoveAnyone_split (holds : lst.Holds store (front ++ nd :: back)) :
    (RawList.fkRawlistRemoveAnyone store lst nd).2.Holds
      (RawList.fkRawlistRemoveAnyone store lst nd).1 (front ++ back) ∧
      (RawList.fkRawlistRemoveAnyone store lst nd).1 nd = ⟨none, none⟩ ∧
      ∀ other, other ∉ front ++ nd :: back →
        (RawList.fkRawlistRemoveAnyone store lst nd).1 other = store other := by
  obtain ⟨unsplices, after⟩ := fkRawlistRemoveAnyone_unsplices holds
  rw [after]
  exact ⟨⟨unsplices.linked holds.linked, rfl⟩, unsplices.here, fun other outside =>
    unsplices.frame outside⟩

theorem fkRawlistRemoveAnyone_spec (holds : lst.Holds store nodes) (member : nd ∈ nodes) :
    (RawList.fkRawlistRemoveAnyone store lst nd).2.Holds
      (RawList.fkRawlistRemoveAnyone store lst nd).1 (nodes.erase nd) ∧
      (RawList.fkRawlistRemoveAnyone store lst nd).1 nd = ⟨none, none⟩ ∧
      ∀ other, other ∉ nodes → (RawList.fkRawlistRemoveAnyone store lst nd).1 other =
        store other := by
  obtain ⟨front, back, rfl⟩ := List.append_of_mem member
  have notFront : nd ∉ front := holds.linked.around.1.1
  have erased : (front ++ nd :: back).erase nd = front ++ back := by
    rw [List.erase_append_right _ notFront, List.erase_cons_head]
  rw [erased]
  exact fkRawlistRemoveAnyone_split holds

end Freekick
