import Freekick.Base.DictNodes

/-!
# Dictionaries that share one memory

The databases, the deadlines and the hashes of the server are dictionaries whose elements come
from one allocator, which may hand out an address again as soon as it is freed.  In every run
each dictionary answers as a finite map of its own, and the memory in use is exactly what the
dictionaries hold.
-/

namespace Freekick

open Lib.Buckets Lib.Nodes Lib.Steps Lib.KeyedMap

/-- The fields of `fk_dict_t`. -/
structure FkDictHead (N : Type) where
  size : Nat
  sizeMask : Nat
  used : Nat
  limit : Nat
  buckets : List (Option (RawList N))

/-- The dictionaries with the memory of their elements; what each of them has copied and freed,
and what the calls have returned. -/
structure DictMem (I N K V : Type) where
  heads : I → Option (FkDictHead N)
  store : NodeStore N
  elt : N → K × V
  live : N → Bool
  copied : I → List (EltRef K V)
  freed : I → List (EltRef K V)
  answers : List (DictAnswer V)

/-- A call, with the address that `fk_elt_create` returns in it. -/
inductive DictCall (I N K V : Type) where
  | create (i : I)
  | call (i : I) (op : DictOp K V) (nd : N)
  | destroy (i : I)

variable {I N K V : Type} [DecidableEq I] [DecidableEq N]

def DictHeap.head (heap : DictHeap N K V) : FkDictHead N :=
  ⟨heap.size, heap.sizeMask, heap.used, heap.limit, heap.buckets⟩

namespace DictMem

/-- Nothing is allocated, and the memory has any contents. -/
def init (store : NodeStore N) (elt : N → K × V) : DictMem I N K V :=
  ⟨fun _ => none, store, elt, fun _ => false, fun _ => [], fun _ => [], []⟩

def view (mem : DictMem I N K V) (head : FkDictHead N) : DictHeap N K V :=
  ⟨head.size, head.sizeMask, head.used, head.limit, head.buckets, mem.store, mem.elt, mem.live⟩

/-- A call on one dictionary has ended. -/
def put (mem : DictMem I N K V) (i : I) (head : Option (FkDictHead N)) {A : Type}
    (done : DictDone N K V A) (answers : List (DictAnswer V)) : DictMem I N K V where
  heads := Function.update mem.heads i head
  store := done.heap.store
  elt := done.heap.elt
  live := done.heap.live
  copied := Function.update mem.copied i (mem.copied i ++ done.copied)
  freed := Function.update mem.freed i (mem.freed i ++ done.freed)
  answers := answers

/-- `none` is a dictionary that is not there, or an undefined operation on its memory. -/
def step (eop : FkEltOp K) (mem : DictMem I N K V) : DictCall I N K V → Option (DictMem I N K V)
  | .create i =>
      let heap := (mem.view ⟨0, 0, 0, 0, []⟩).fkDictInit
      some (mem.put i (some heap.head) (⟨(), heap, [], []⟩ : DictDone N K V Unit) mem.answers)
  | .call i op nd =>
      (mem.heads i).bind fun head =>
        ((mem.view head).call eop nd op).map fun done => mem.put i (some done.heap.head) done
          (mem.answers ++ [done.answer])
  | .destroy i =>
      (mem.heads i).bind fun head =>
        (mem.view head).fkDictClear.map fun (heap, freed) =>
          mem.put i none (⟨(), heap, [], freed⟩ : DictDone N K V Unit) mem.answers

/-- A dictionary is created once and used while it is there, and the allocator returns memory that
is free. -/
def Admitted (mem : DictMem I N K V) : DictCall I N K V → Prop
  | .create i => mem.heads i = none
  | .call i op nd => (mem.heads i).isSome = true ∧ (op.allocates = true → mem.live nd = false)
  | .destroy i => (mem.heads i).isSome = true

end DictMem

/-- A map for every dictionary that is there, and the answers of the maps. -/
structure DictMaps (I K V : Type) where
  maps : I → Option (K → Option V)
  answers : List (DictAnswer V)

namespace DictMaps

def init : DictMaps I K V := ⟨fun _ => none, []⟩

def step (eop : FkEltOp K) (state : DictMaps I K V) : DictCall I N K V → DictMaps I K V
  | .create i => { state with maps := Function.update state.maps i (some fun _ => none) }
  | .call i op _ =>
      match state.maps i with
      | none => state
      | some found =>
          let (answer, next) := mapStep eop found op
          ⟨Function.update state.maps i (some next), state.answers ++ [answer]⟩
  | .destroy i => { state with maps := Function.update state.maps i none }

end DictMaps

/-- The memory holds the maps: every dictionary has its own live nodes, no other node is live, and
of every key and value that was copied either a copy is in the dictionary or it was freed. -/
structure DictMem.Hold (mem : DictMem I N K V) (eop : FkEltOp K) (ids : I → List (Option (List N)))
    (state : DictMaps I K V) : Prop where
  absent : ∀ i, mem.heads i = none → contents (ids i) = [] ∧ state.maps i = none
  layout : ∀ i head, mem.heads i = some head → (mem.view head).Layout (ids i)
  wf : ∀ i head, mem.heads i = some head → ((mem.view head).value (ids i)).Wf eop
  maps : ∀ i head, mem.heads i = some head →
    state.maps i = some (fkDictGet eop ((mem.view head).value (ids i)))
  live : ∀ nd, mem.live nd = true ↔ ∃ i, nd ∈ contents (ids i)
  apart : ∀ i j, i ≠ j → (contents (ids i)).Disjoint (contents (ids j))
  balance : ∀ i, (mem.copied i).Perm (mem.freed i ++ refs ((contents (ids i)).map mem.elt))
  answers : mem.answers = state.answers

section Steps

variable {mem : DictMem I N K V} {eop : FkEltOp K} {ids : I → List (Option (List N))}
  {state : DictMaps I K V}

omit [DecidableEq I] [DecidableEq N] in
theorem DictMem.init_hold (store : NodeStore N) (elt : N → K × V) :
    (DictMem.init store elt : DictMem I N K V).Hold eop (fun _ => []) DictMaps.init where
  absent _ _ := ⟨rfl, rfl⟩
  layout _ _ found := absurd found.symm (Option.some_ne_none _)
  wf _ _ found := absurd found.symm (Option.some_ne_none _)
  maps _ _ found := absurd found.symm (Option.some_ne_none _)
  live nd := by
    constructor
    · intro live
      cases live
    · rintro ⟨i, member⟩
      cases member
  apart _ _ _ _ member := absurd member List.not_mem_nil
  balance _ := .refl _
  answers := rfl

section Put

variable {A : Type} {i j : I} {head : FkDictHead N} {done : DictDone N K V A}
  {later : List (Option (List N))} {fresh : List N}
  {next : Option (FkDictHead N)} {map : Option (K → Option V)} {answers : List (DictAnswer V)}

omit [DecidableEq N] in
theorem DictMem.put_heads_self : (mem.put i next done answers).heads i = next :=
  Function.update_self ..

omit [DecidableEq N] in
theorem DictMem.put_heads_of_ne (differs : j ≠ i) :
    (mem.put i next done answers).heads j = mem.heads j :=
  Function.update_of_ne differs ..

omit [DecidableEq I] [DecidableEq N] in
/-- The nodes of another dictionary stay out of the one that is called, and are as they were. -/
theorem DictMem.Hold.untouched (hold : mem.Hold eop ids state)
    (moves : DictHeap.Moves (mem.view head) (ids i) done later fresh)
    (free : ∀ nd ∈ fresh, mem.live nd = false) (differs : j ≠ i) {nd : N}
    (member : nd ∈ contents (ids j)) :
    nd ∉ contents later ∧ done.heap.store nd = mem.store nd ∧ done.heap.elt nd = mem.elt nd ∧
      done.heap.live nd = mem.live nd := by
  have old : nd ∉ contents (ids i) := fun inside => hold.apart j i differs member inside
  have new : nd ∉ fresh := by
    intro taken
    have alive := (hold.live nd).mpr ⟨j, member⟩
    rw [free nd taken] at alive
    cases alive
  exact ⟨fun inside => (moves.nodes nd inside).elim old new, moves.frame nd old new⟩

omit [DecidableEq N] in
/-- Another dictionary stands for what it stood for. -/
theorem DictMem.Hold.other (hold : mem.Hold eop ids state)
    (moves : DictHeap.Moves (mem.view head) (ids i) done later fresh)
    (free : ∀ nd ∈ fresh, mem.live nd = false) (differs : j ≠ i) {other : FkDictHead N}
    (found : mem.heads j = some other) :
    ((mem.put i next done answers).view other).Layout (ids j) ∧
      ((mem.put i next done answers).view other).value (ids j) = (mem.view other).value
      (ids j) := by
  have same := fun nd (member : nd ∈ contents (ids j)) =>
    (hold.untouched moves free differs member).2
  have kept := (hold.layout j other found).congr fun nd member =>
    ⟨(same nd member).1, (same nd member).2.2⟩
  have slots : mapSlots done.heap.elt (ids j) = mapSlots mem.elt (ids j) :=
    mapSlots_congr fun nd member => (same nd member).2.1
  exact ⟨⟨kept.shape, kept.holds, kept.live, kept.nodup⟩,
    congrArg (fun buckets => (⟨other.size, other.sizeMask, other.used, other.limit, buckets⟩ :
      FkDict K V)) slots⟩

/-- After a call the live nodes are those of the dictionaries. -/
theorem DictMem.Hold.put_live (hold : mem.Hold eop ids state)
    (moves : DictHeap.Moves (mem.view head) (ids i) done later fresh)
    (free : ∀ nd ∈ fresh, mem.live nd = false) (nd : N) :
    done.heap.live nd = true ↔ ∃ j, nd ∈ contents (Function.update ids i later j) := by
  constructor
  · intro alive
    by_cases member : nd ∈ contents later
    · exact ⟨i, by rwa [Function.update_self]⟩
    · have old : nd ∉ contents (ids i) := fun inside => by
        rw [moves.gone nd inside member] at alive
        cases alive
      have new : nd ∉ fresh := fun taken => member (moves.taken nd taken)
      obtain ⟨j, inside⟩ := (hold.live nd).mp ((moves.frame nd old new).2.2.symm.trans alive)
      have differs : j ≠ i := by
        rintro rfl
        exact old inside
      exact ⟨j, by rwa [Function.update_of_ne differs]⟩
  · rintro ⟨j, member⟩
    by_cases here : j = i
    · subst here
      rw [Function.update_self] at member
      exact moves.layout.live nd member
    · rw [Function.update_of_ne here] at member
      exact (hold.untouched moves free here member).2.2.2.trans ((hold.live nd).mpr ⟨j, member⟩)

omit [DecidableEq N] in
theorem DictMem.Hold.put_balance (hold : mem.Hold eop ids state)
    (moves : DictHeap.Moves (mem.view head) (ids i) done later fresh)
    (free : ∀ nd ∈ fresh, mem.live nd = false) (j : I) :
    ((mem.put i next done answers).copied j).Perm
      ((mem.put i next done answers).freed j ++ refs
        ((contents (Function.update ids i later j)).map done.heap.elt)) := by
  classical
  dsimp only [DictMem.put]
  by_cases here : j = i
  · subst here
    rw [Function.update_self, Function.update_self, Function.update_self]
    refine List.perm_iff_count.mpr fun ref => ?_
    have before := List.perm_iff_count.mp (hold.balance j) ref
    have moved := List.perm_iff_count.mp moves.balance ref
    simp only [List.count_append, DictMem.view] at before moved ⊢
    omega
  · rw [Function.update_of_ne here, Function.update_of_ne here, Function.update_of_ne here,
      List.map_congr_left fun nd member => (hold.untouched moves free here member).2.2.1]
    exact hold.balance j

/-- What a call does to one dictionary leaves the others alone. -/
theorem DictMem.Hold.put (hold : mem.Hold eop ids state)
    (moves : DictHeap.Moves (mem.view head) (ids i) done later fresh)
    (free : ∀ nd ∈ fresh, mem.live nd = false)
    (left : next = none → contents later = [] ∧ map = none) (stays : ∀ head, next = some head →
      head = done.heap.head ∧ (done.heap.value later).Wf eop ∧
      map = some (fkDictGet eop (done.heap.value later))) :
    (mem.put i next done answers).Hold eop (Function.update ids i later)
      ⟨Function.update state.maps i map, answers⟩ where
  absent j gone := by
    dsimp only
    by_cases here : j = i
    · subst here
      rw [Function.update_self, Function.update_self]
      exact left (DictMem.put_heads_self.symm.trans gone)
    · rw [Function.update_of_ne here, Function.update_of_ne here]
      exact hold.absent j ((DictMem.put_heads_of_ne here).symm.trans gone)
  layout j other found := by
    by_cases here : j = i
    · subst here
      obtain ⟨rfl, _⟩ := stays other (DictMem.put_heads_self.symm.trans found)
      rw [Function.update_self]
      exact moves.layout
    · rw [Function.update_of_ne here]
      exact (hold.other moves free here ((DictMem.put_heads_of_ne here).symm.trans found)).1
  wf j other found := by
    by_cases here : j = i
    · subst here
      obtain ⟨rfl, wf, _⟩ := stays other (DictMem.put_heads_self.symm.trans found)
      rw [Function.update_self]
      exact wf
    · have found : mem.heads j = some other := (DictMem.put_heads_of_ne here).symm.trans found
      rw [Function.update_of_ne here, (hold.other moves free here found).2]
      exact hold.wf j other found
  maps j other found := by
    dsimp only
    by_cases here : j = i
    · subst here
      obtain ⟨rfl, _, same⟩ := stays other (DictMem.put_heads_self.symm.trans found)
      rw [Function.update_self, Function.update_self]
      exact same
    · have found : mem.heads j = some other := (DictMem.put_heads_of_ne here).symm.trans found
      rw [Function.update_of_ne here, Function.update_of_ne here,
        (hold.other moves free here found).2]
      exact hold.maps j other found
  live := hold.put_live moves free
  apart j k differ nd first second := by
    by_cases here : j = i
    · subst here
      rw [Function.update_self] at first
      rw [Function.update_of_ne differ.symm] at second
      exact (hold.untouched moves free differ.symm second).1 first
    · rw [Function.update_of_ne here] at first
      by_cases there : k = i
      · subst there
        rw [Function.update_self] at second
        exact (hold.untouched moves free here first).1 second
      · rw [Function.update_of_ne there] at second
        exact hold.apart j k differ first second
  balance := hold.put_balance moves free
  answers := rfl

end Put

omit [DecidableEq N] in
theorem layout_of_nil {heap : DictHeap N K V} (nothing : heap.buckets = []) : heap.Layout [] := by
  obtain ⟨size, sizeMask, used, limit, buckets, store, elt, live⟩ := heap
  obtain rfl : buckets = [] := nothing
  exact DictHeap.layout_replicate ⟨size, sizeMask, used, limit, [], store, elt, live⟩ 0

/-- One admitted call is defined, and keeps the memory and the maps together. -/
theorem DictMem.Hold.step (lawful : eop.Lawful) (hold : mem.Hold eop ids state)
    {call : DictCall I N K V} (admitted : mem.Admitted call) :
    ∃ next later, mem.step eop call = some next ∧ next.Hold eop later (state.step eop call) := by
  cases call with
  | create i =>
      obtain ⟨nothing, _⟩ := hold.absent i admitted
      have cleared : DictHeap.Cleared (mem.view ⟨0, 0, 0, 0, []⟩) (ids i)
          (mem.view ⟨0, 0, 0, 0, []⟩).fkDictInit := by
        refine ⟨rfl, fun nd member => ?_, fun nd _ => ⟨rfl, rfl⟩⟩
        rw [nothing] at member
        cases member
      have moves := cleared.moves () (DictHeap.fkDictInit_layout _) (contents_replicate _)
      rw [nothing] at moves
      refine ⟨_, Function.update ids i (List.replicate fkDictInitSize none), rfl, ?_⟩
      rw [DictMaps.step, ← hold.answers]
      refine hold.put moves (fun nd member => absurd member List.not_mem_nil)
        (fun gone => absurd gone (Option.some_ne_none _)) ?_
      intro head found
      refine ⟨(Option.some.inj found).symm, ?_, ?_⟩
      · rw [DictHeap.fkDictInit_value]
        exact fkDictInit_wf
      · rw [DictHeap.fkDictInit_value, fkDictGet_init lawful]
  | call i op nd =>
      obtain ⟨present, free⟩ := admitted
      obtain ⟨head, found⟩ := Option.isSome_iff_exists.mp present
      obtain ⟨done, later, fresh, ran, moves, dead, answer, value⟩ :=
        (hold.layout i head found).call lawful (hold.wf i head found) op free
      obtain ⟨wf, mapped⟩ := dictStep_spec lawful (hold.wf i head found) op
      have moved : state.step eop (.call i op nd) =
          ⟨Function.update state.maps i (some (fkDictGet eop (done.heap.value later))),
            mem.answers ++ [done.answer]⟩ := by
        rw [DictMaps.step, hold.maps i head found, hold.answers, answer, value]
        dsimp only
        rw [← mapped]
        rfl
      refine ⟨mem.put i (some done.heap.head) done (mem.answers ++ [done.answer]),
        Function.update ids i later, ?_, ?_⟩
      · rw [DictMem.step, found, Option.bind_some, ran, Option.map_some]
      · rw [moved]
        refine hold.put moves dead (fun gone => absurd gone (Option.some_ne_none _)) ?_
        intro next same
        exact ⟨(Option.some.inj same).symm, by rw [value]; exact wf, rfl⟩
  | destroy i =>
      obtain ⟨head, found⟩ := Option.isSome_iff_exists.mp admitted
      obtain ⟨after, ran, cleared, nothing⟩ := (hold.layout i head found).clear
      refine ⟨_, _, ?_, hold.put (cleared.moves () (layout_of_nil nothing) rfl)
        (fun nd member => absurd member List.not_mem_nil)
        (fun _ => ⟨rfl, rfl⟩) fun _ found => absurd found.symm (Option.some_ne_none _)⟩
      rw [DictMem.step, found, Option.bind_some, ran, Option.map_some, hold.answers]

/-- Whatever addresses the allocator returns, every call of a run is defined: it reads no freed
element, frees none twice and ends. The dictionaries answer as maps, the live elements are exactly
theirs, and a key or value that was copied is in its dictionary or was freed once. -/
theorem fkDict_shared_memory (lawful : eop.Lawful) (store : NodeStore N) (elt : N → K × V)
    {calls : List (DictCall I N K V)}
    (along : Throughout (DictMem.step eop) DictMem.Admitted (DictMem.init store elt) calls) :
    ∃ final ids, run (DictMem.step eop) (DictMem.init store elt) calls = some final ∧
      final.Hold eop ids (calls.foldl (DictMaps.step eop) DictMaps.init) ∧
      ((∀ i, final.heads i = none) → (∀ nd, final.live nd = false) ∧
        ∀ i, (final.copied i).Perm (final.freed i)) := by
  obtain ⟨final, ran, ids, hold⟩ := run_simulates
    (fun mem state call (kept : ∃ ids, mem.Hold eop ids state) (admitted : mem.Admitted call) => by
      obtain ⟨ids, hold⟩ := kept
      obtain ⟨next, later, stepped, after⟩ := hold.step lawful admitted
      exact ⟨next, stepped, later, after⟩)
    ⟨_, DictMem.init_hold store elt⟩ along
  refine ⟨final, ids, ran, hold, fun gone => ⟨fun nd => ?_, fun i => ?_⟩⟩
  · rw [Bool.eq_false_iff]
    intro alive
    obtain ⟨i, member⟩ := (hold.live nd).mp alive
    rw [(hold.absent i (gone i)).1] at member
    cases member
  · have balance := hold.balance i
    rw [(hold.absent i (gone i)).1] at balance
    exact balance.trans (by rw [List.map_nil]; exact .of_eq (List.append_nil _))

end Steps

instance (mem : DictMem I N K V) : DecidablePred mem.Admitted
  | .create i => decidable_of_iff ((mem.heads i).isNone = true) Option.isNone_iff_eq_none
  | .call _ _ _ => inferInstanceAs (Decidable (_ ∧ (_ → _)))
  | .destroy i => inferInstanceAs (Decidable ((mem.heads i).isSome = true))

/-- Two dictionaries take turns in the memory; one of them grows, and an address is used again. -/
def sharedCalls : List (DictCall Bool Nat Bytes Nat) :=
  [.create true, .create false, .call true (.add [97] 1) 0, .call false (.add [97] 2) 1,
    .call true (.add [98] 3) 2, .call true (.add [99] 4) 3, .call true (.remove [97]) 0,
    .call false (.replace [98] 5) 0, .call false (.replace [97] 6) 9,
    .call true (.get [98]) 0, .call true .empty 0, .call false (.get [97]) 0, .destroy true,
    .destroy false]

theorem fkDict_shared_memory_destroyed :
    ∃ final : DictMem Bool Nat Bytes Nat, run (DictMem.step dbDictEop)
      (DictMem.init (fun _ => ⟨none, none⟩) fun _ => ([], 0)) sharedCalls = some final ∧
      (∀ nd, final.live nd = false) ∧ (final.copied false).Perm (final.freed false) := by
  have along : Throughout (DictMem.step dbDictEop) DictMem.Admitted
      (DictMem.init (fun _ => ⟨none, none⟩) fun _ => ([], 0)) sharedCalls := by
    decide +kernel
  obtain ⟨final, ids, ran, _, destroyed⟩ := fkDict_shared_memory dbDictEop_lawful _ _ along
  have gone : ((run (DictMem.step dbDictEop) (DictMem.init (fun _ => ⟨none, none⟩) fun _ => ([], 0))
      sharedCalls).map fun last =>
      ((last.heads true).isNone, (last.heads false).isNone)) = some (true, true) := by
    decide +kernel
  rw [ran, Option.map_some, Option.some.injEq, Prod.mk.injEq, Option.isNone_iff_eq_none,
    Option.isNone_iff_eq_none] at gone
  obtain ⟨none, balance⟩ := destroyed fun i => by
    cases i with
    | true => exact gone.1
    | false => exact gone.2
  exact ⟨final, ran, none, balance false⟩

end Freekick
