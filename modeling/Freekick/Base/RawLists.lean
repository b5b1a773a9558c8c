import Freekick.Base.RawList
import Freekick.Lib.Steps
import Mathlib.Data.Fintype.Basic

/-!
# Runs over lists of one store

The lists are named, and they share the store of nodes.  A run keeps every list well
formed, with the nodes of the sequence that the same operations make.
-/

namespace Freekick

open Lib.Nodes Lib.Steps

structure RawLists (I N : Type) where
  store : NodeStore N
  lists : I → RawList N

inductive ListOp (I N : Type) where
  | insertHead (i : I) (nd : N)
  | insertTail (i : I) (nd : N)
  | removeAnyone (i : I) (nd : N)
  deriving DecidableEq, Repr

variable {I N : Type} [DecidableEq I] [DecidableEq N]

/-- `fk_rawlist_init` of every list; the nodes hold any links. -/
def RawLists.init (store : NodeStore N) : RawLists I N := ⟨store, fun _ => RawList.fkRawlistInit⟩

def RawLists.put (state : RawLists I N) (i : I) (changed : NodeStore N × RawList N) :
    RawLists I N :=
  ⟨changed.1, Function.update state.lists i changed.2⟩

def listStep (state : RawLists I N) : ListOp I N → Option (RawLists I N)
  | .insertHead i nd =>
      (RawList.fkRawlistInsertHead state.store (state.lists i) nd).map (state.put i)
  | .insertTail i nd =>
      (RawList.fkRawlistInsertTail state.store (state.lists i) nd).map (state.put i)
  | .removeAnyone i nd =>
      some (state.put i (RawList.fkRawlistRemoveAnyone state.store (state.lists i) nd))

namespace ListOp

omit [DecidableEq I] [DecidableEq N] in
/-- The list that an operation is about. -/
def list : ListOp I N → I
  | insertHead i _ | insertTail i _ | removeAnyone i _ => i

omit [DecidableEq I] [DecidableEq N] in
def node : ListOp I N → N
  | insertHead _ nd | insertTail _ nd | removeAnyone _ nd => nd

/-- The operation on the sequences of nodes. -/
def apply (seqs : I → List N) : ListOp I N → I → List N
  | insertHead i nd => Function.update seqs i (nd :: seqs i)
  | insertTail i nd => Function.update seqs i (seqs i ++ [nd])
  | removeAnyone i nd => Function.update seqs i ((seqs i).erase nd)

omit [DecidableEq I] [DecidableEq N] in
/-- A node of no list is inserted, and a node of the list is removed. -/
def Admitted (seqs : I → List N) : ListOp I N → Prop
  | insertHead _ nd => ∀ i, nd ∉ seqs i
  | insertTail _ nd => ∀ i, nd ∉ seqs i
  | removeAnyone i nd => nd ∈ seqs i

/-- The sequences after some operations. -/
def sequences (ops : List (ListOp I N)) : I → List N := ops.foldl apply fun _ => []

/-- Every operation is admitted by the sequences it finds. -/
def AllAdmitted (ops : List (ListOp I N)) : Prop :=
  Throughout (fun seqs op => some (apply seqs op)) Admitted (fun _ => []) ops

end ListOp

/-- The lists hold these sequences, and no node is in two of them. -/
structure RawLists.Hold (state : RawLists I N) (seqs : I → List N) : Prop where
  holds : ∀ i, (state.lists i).Holds state.store (seqs i)
  apart : ∀ i j, i ≠ j → (seqs i).Disjoint (seqs j)

variable {state : RawLists I N} {seqs : I → List N}

omit [DecidableEq I] [DecidableEq N] in
theorem RawList.Holds.congr {lst : RawList N} {store changed : NodeStore N} {nodes : List N}
    (holds : lst.Holds store nodes) (same : ∀ nd ∈ nodes, changed nd = store nd) :
    lst.Holds changed nodes :=
  ⟨holds.linked.congr same, holds.len⟩

omit [DecidableEq N] in
/-- One list is changed, and nodes of no other list. -/
theorem RawLists.Hold.put (hold : state.Hold seqs) {i : I} {changed : NodeStore N × RawList N}
    {nodes : List N} (after : changed.2.Holds changed.1 nodes)
    (others : ∀ j, j ≠ i → ∀ nd ∈ seqs j, nd ∉ nodes ∧ changed.1 nd = state.store nd) :
    (state.put i changed).Hold (Function.update seqs i nodes) := by
  constructor
  · intro j
    by_cases here : j = i
    · subst here
      simpa [RawLists.put] using after
    · have same : (state.put i changed).lists j = state.lists j := Function.update_of_ne here ..
      rw [same, Function.update_of_ne here]
      exact (hold.holds j).congr fun nd member => (others j here nd member).2
  · intro j k differ nd inFirst inSecond
    by_cases first : j = i
    · subst first
      rw [Function.update_self] at inFirst
      rw [Function.update_of_ne differ.symm] at inSecond
      exact (others k differ.symm nd inSecond).1 inFirst
    · rw [Function.update_of_ne first] at inFirst
      by_cases second : k = i
      · subst second
        rw [Function.update_self] at inSecond
        exact (others j differ nd inFirst).1 inSecond
      · rw [Function.update_of_ne second] at inSecond
        exact hold.apart j k differ inFirst inSecond

/-- What one operation does: a removed node has no links, and what is outside of the list
stays as it is. -/
structure ListOp.Does (op : ListOp I N) (seqs : I → List N) (state next : RawLists I N) : Prop where
  hold : next.Hold (op.apply seqs)
  removed : ∀ i nd, op = .removeAnyone i nd → next.store nd = ⟨none, none⟩
  lists : ∀ i, i ≠ op.list → next.lists i = state.lists i ∧
    ∀ nd ∈ seqs i, next.store nd = state.store nd
  frame : ∀ nd, nd ≠ op.node → nd ∉ seqs op.list → next.store nd = state.store nd

omit [DecidableEq N] in
theorem listStep_insert (hold : state.Hold seqs) {i : I} {nd : N} {nodes : List N}
    {changed : NodeStore N × RawList N}
    (new : ∀ j, nd ∉ seqs j) (made : ∀ other, other ∈ nodes ↔ other = nd ∨ other ∈ seqs i)
    (after : changed.2.Holds changed.1 nodes)
    (frame : ∀ other, other ≠ nd → other ∉ seqs i → changed.1 other = state.store other) :
    (state.put i changed).Hold (Function.update seqs i nodes) := by
  refine hold.put after fun j differs other member => ?_
  have notNew : other ≠ nd := fun same => new j (same ▸ member)
  have outside : other ∉ seqs i := fun inside => hold.apart j i differs member inside
  refine ⟨?_, frame other notNew outside⟩
  rw [made]
  exact not_or.mpr ⟨notNew, outside⟩

omit [DecidableEq I] [DecidableEq N] in
/-- The node of an operation is in no other list. -/
theorem ListOp.Admitted.node_apart {op : ListOp I N} (hold : state.Hold seqs)
    (admitted : op.Admitted seqs) {i : I} (differs : i ≠ op.list) : op.node ∉ seqs i := by
  cases op with
  | insertHead _ nd => exact admitted i
  | insertTail _ nd => exact admitted i
  | removeAnyone j nd => exact fun member => hold.apart i j differs member admitted

theorem ListOp.Does.of_frame {op : ListOp I N} {next : RawLists I N} (hold : state.Hold seqs)
    (admitted : op.Admitted seqs) (after : next.Hold (op.apply seqs))
    (removed : ∀ i nd, op = .removeAnyone i nd → next.store nd = ⟨none, none⟩)
    (frame : ∀ nd, nd ≠ op.node → nd ∉ seqs op.list → next.store nd = state.store nd)
    (lists : ∀ i, i ≠ op.list → next.lists i = state.lists i) : op.Does seqs state next where
  hold := after
  removed := removed
  frame := frame
  lists := by
    refine fun i differs => ⟨lists i differs, fun nd member => frame nd ?_ fun inside =>
      hold.apart i op.list differs member inside⟩
    rintro rfl
    exact admitted.node_apart hold differs member

theorem listStep_does (hold : state.Hold seqs) {op : ListOp I N} (admitted : op.Admitted seqs) :
    ∃ next, listStep state op = some next ∧ op.Does seqs state next := by
  cases op with
  | insertHead i nd =>
      obtain ⟨changed, after, inserted, kept, frame⟩ :=
        fkRawlistInsertHead_spec (hold.holds i) (admitted i)
      refine ⟨_, congrArg (Option.map (state.put i)) inserted,
        .of_frame hold admitted ?_ nofun frame fun j other => Function.update_of_ne other ..⟩
      exact listStep_insert hold admitted (fun other => List.mem_cons) kept frame
  | insertTail i nd =>
      obtain ⟨changed, after, inserted, kept, frame⟩ :=
        fkRawlistInsertTail_spec (hold.holds i) (admitted i)
      refine ⟨_, congrArg (Option.map (state.put i)) inserted,
        .of_frame hold admitted ?_ nofun frame fun j other => Function.update_of_ne other ..⟩
      exact listStep_insert hold admitted (fun other => by simp [or_comm]) kept frame
  | removeAnyone i nd =>
      obtain ⟨kept, detached, frame⟩ := fkRawlistRemoveAnyone_spec (hold.holds i) admitted
      refine ⟨_, rfl, .of_frame hold admitted ?_ ?_ (fun other _ outside => frame other outside)
        fun j other => Function.update_of_ne other ..⟩
      · refine hold.put kept fun j differs other member => ?_
        have outside : other ∉ seqs i := fun inside => hold.apart j i differs member inside
        exact ⟨fun inside => outside (List.mem_of_mem_erase inside), frame other outside⟩
      · rintro j other same
        cases same
        exact detached

omit [DecidableEq I] [DecidableEq N] in
theorem RawLists.init_hold (store : NodeStore N) : (RawLists.init store).Hold fun _ : I => [] where
  holds := fun _ => ⟨linked_nil store, rfl⟩
  apart := fun _ _ _ _ none => (nomatch none)

instance [Fintype I] (seqs : I → List N) : DecidablePred (ListOp.Admitted seqs)
  | .insertHead _ nd => inferInstanceAs (Decidable (∀ i, nd ∉ seqs i))
  | .insertTail _ nd => inferInstanceAs (Decidable (∀ i, nd ∉ seqs i))
  | .removeAnyone i nd => inferInstanceAs (Decidable (nd ∈ seqs i))

/-- No operation of a run meets a null pointer, and the lists hold the sequences of the same
operations. -/
theorem listStep_run (store : NodeStore N) {ops : List (ListOp I N)}
    (admitted : ListOp.AllAdmitted ops) :
    ∃ final, run listStep (RawLists.init store) ops = some final ∧
      final.Hold (ListOp.sequences ops) := by
  refine run_follows ?_ (RawLists.init_hold store) admitted (run_total ListOp.apply)
  intro state seqs op after hold admitted moved
  obtain rfl := Option.some.inj moved
  obtain ⟨next, stepped, does⟩ := listStep_does hold admitted
  exact ⟨next, stepped, does.hold⟩

/-- The macros refine the operations on sequences, in every run. -/
theorem fkRawlist_run_refines (store : NodeStore N) (ops : List (ListOp I N))
    (admitted : ListOp.AllAdmitted ops) :
    ∃ final, run listStep (RawLists.init store) ops = some final ∧
      final.Hold (ListOp.sequences ops) ∧ ∀ op : ListOp I N, op.Admitted (ListOp.sequences ops) →
        ∃ next, listStep final op = some next ∧ op.Does (ListOp.sequences ops) final next := by
  obtain ⟨final, ran, hold⟩ := listStep_run store admitted
  exact ⟨final, ran, hold, fun op fits => listStep_does hold fits⟩

/-- Two lists; a node in the middle moves from one to the other, and a singleton is emptied. -/
theorem fkRawlist_run_refines_moved :
    let store : NodeStore Nat := fun nd => ⟨some (nd + 1), some 0⟩
    let ops : List (ListOp Bool Nat) :=
      [.insertHead true 1, .insertTail true 2, .insertHead true 3, .removeAnyone true 1,
        .insertTail false 1, .removeAnyone false 1, .insertHead false 1]
    ∃ final, run listStep (RawLists.init store) ops = some final ∧
      final.Hold (ListOp.sequences ops) ∧ ∀ op :
      ListOp Bool Nat, op.Admitted (ListOp.sequences ops) →
        ∃ next, listStep final op = some next ∧ op.Does (ListOp.sequences ops) final next := by
  intro store ops
  have admitted : ListOp.AllAdmitted ops := by
    unfold ListOp.AllAdmitted
    decide
  exact fkRawlist_run_refines store ops admitted

end Freekick
