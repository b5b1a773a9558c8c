import Mathlib.Data.List.Nodup

/-!
# Doubly linked lists over a store

Every node of the store has two links.  A list is well formed when following the links
forward from its head meets its nodes, and following them backward from its tail meets
the same nodes in reverse.  A piece of a list is described between its neighbours, and
a list is put together and taken apart piece by piece.
-/

namespace Freekick.Lib.Nodes

structure Links (N : Type) where
  prev : Option N
  next : Option N
  deriving DecidableEq, Repr

variable {N : Type} {store changed : N → Links N}

/-- Following a link from a place meets these nodes and then nothing. -/
def Visits (link : N → Option N) : Option N → List N → Prop
  | place, [] => place = none
  | place, node :: rest => place = some node ∧ Visits link (link node) rest

structure Linked (store : N → Links N) (head tail : Option N) (nodes : List N) : Prop where
  forward : Visits (fun node => (store node).next) head nodes
  backward : Visits (fun node => (store node).prev) tail nodes.reverse
  nodup : nodes.Nodup

/-- Nodes in a row, the node before them and the node behind them. -/
def Piece (store : N → Links N) : Option N → List N → Option N → Prop
  | _, [], _ => True
  | before, node :: rest, behind =>
      (store node).prev = before ∧ (store node).next = rest.head?.or behind ∧
        Piece store (some node) rest behind

/-! ## Visits -/

section Visits

variable {link : N → Option N} {place : Option N} {nodes front back : List N}

theorem Visits.place_eq (visits : Visits link place nodes) : place = nodes.head? := by
  cases nodes with
  | nil => exact visits
  | cons node rest => exact visits.1

/-- What follows a node is visited from its link. -/
theorem Visits.behind {node : N} (visits : Visits link place (front ++ node :: back)) :
    Visits link (link node) back := by
  induction front generalizing place with
  | nil => exact visits.2
  | cons first front ih => exact ih visits.2

theorem Visits.congr {other : N → Option N} (visits : Visits link place nodes)
    (same : ∀ node ∈ nodes, other node = link node) :
    Visits other place nodes := by
  induction nodes generalizing place with
  | nil => exact visits
  | cons node rest ih =>
      obtain ⟨here, later⟩ := List.forall_mem_cons.mp same
      exact ⟨visits.1, here.symm ▸ ih visits.2 later⟩

end Visits

/-! ## Pieces -/

section Pieces

variable {before behind : Option N} {nodes front back : List N}

theorem getLast?_cons_or (node : N) (rest : List N) (before : Option N) :
    (node :: rest).getLast?.or before = rest.getLast?.or (some node) := by
  cases rest with
  | nil => rfl
  | cons next rest => simp [List.getLast?_cons]

theorem piece_append :
    Piece store before (front ++ back) behind ↔
      Piece store before front (back.head?.or behind) ∧
        Piece store (front.getLast?.or before) back behind := by
  induction front generalizing before with
  | nil => simp [Piece]
  | cons node rest ih =>
      have ends : (rest ++ back).head?.or behind = rest.head?.or (back.head?.or behind) := by
        cases rest <;> rfl
      simp only [List.cons_append, Piece, ih, ends, getLast?_cons_or, and_assoc]

theorem Piece.congr (piece : Piece store before nodes behind)
    (same : ∀ node ∈ nodes, changed node = store node) :
    Piece changed before nodes behind := by
  induction nodes generalizing before with
  | nil => trivial
  | cons node rest ih =>
      obtain ⟨here, others⟩ := List.forall_mem_cons.mp same
      obtain ⟨prev, next, later⟩ := piece
      exact ⟨here ▸ prev, here ▸ next, ih later others⟩

theorem Piece.forward (piece : Piece store before nodes none) :
    Visits (fun node => (store node).next) nodes.head? nodes := by
  induction nodes generalizing before with
  | nil => rfl
  | cons node rest ih =>
      obtain ⟨_, next, later⟩ := piece
      rw [Option.or_none] at next
      refine ⟨rfl, ?_⟩
      dsimp only
      rw [next]
      exact ih later

theorem Piece.backward {earlier : List N} (piece : Piece store before nodes behind)
    (visits : Visits (fun node => (store node).prev) before earlier) :
    Visits (fun node => (store node).prev) (nodes.getLast?.or before)
      (nodes.reverse ++ earlier) := by
  induction nodes generalizing before earlier with
  | nil => exact visits
  | cons node rest ih =>
      obtain ⟨prev, _, later⟩ := piece
      rw [getLast?_cons_or, List.reverse_cons, List.append_assoc]
      refine ih later ⟨rfl, ?_⟩
      dsimp only
      rw [prev]
      exact visits

theorem piece_of_visits {head tail : Option N} {earlier : List N}
    (forward : Visits (fun node => (store node).next) head nodes)
    (backward : Visits (fun node => (store node).prev) tail (nodes.reverse ++ earlier)) :
    Piece store earlier.head? nodes none := by
  induction nodes generalizing head earlier with
  | nil => trivial
  | cons node rest ih =>
      obtain ⟨_, later⟩ := forward
      rw [List.reverse_cons, List.append_assoc] at backward
      refine ⟨backward.behind.place_eq, ?_, ih later backward⟩
      rw [Option.or_none]
      exact later.place_eq

/-- The last node of a piece gets another neighbour. -/
theorem Piece.relast {other : Option N} (piece : Piece store before front behind)
    (nodup : front.Nodup) (inner : ∀ node ∈ front, front.getLast? ≠ some node →
      changed node = store node)
    (last : ∀ node, front.getLast? = some node → changed node = { store node with next := other }) :
    Piece changed before front other := by
  rcases List.eq_nil_or_concat' front with rfl | ⟨start, node, rfl⟩
  · trivial
  · have isLast : (start ++ [node]).getLast? = some node := List.getLast?_concat
    obtain ⟨first, here⟩ := piece_append.mp piece
    refine piece_append.mpr ⟨first.congr fun earlier member =>
      inner earlier (List.mem_append_left _ member) ?_, ?_⟩
    · rw [isLast]
      intro same
      cases same
      exact List.disjoint_of_nodup_append nodup member (List.mem_singleton_self _)
    · have here := here.1
      rw [Piece, last node isLast]
      exact ⟨here, rfl, trivial⟩

/-- The first node of a piece gets another neighbour. -/
theorem Piece.rehead {other : Option N} (piece : Piece store before back behind)
    (nodup : back.Nodup) (inner : ∀ node ∈ back, back.head? ≠ some node → changed node = store node)
    (first : ∀ node, back.head? = some node → changed node = { store node with prev := other }) :
    Piece changed other back behind := by
  cases back with
  | nil => trivial
  | cons node rest =>
      obtain ⟨_, next, later⟩ := piece
      rw [Piece, first node rfl]
      refine ⟨rfl, next, later.congr fun another member =>
        inner another (List.mem_cons_of_mem _ member) ?_⟩
      intro same
      cases same
      exact (List.nodup_cons.mp nodup).1 member

end Pieces

/-! ## Lists -/

variable {head tail : Option N} {nodes front back : List N} {node : N}

theorem linked_iff : Linked store head tail nodes ↔
    head = nodes.head? ∧ tail = nodes.getLast? ∧ nodes.Nodup ∧ Piece store none nodes none := by
  constructor
  · rintro ⟨forward, backward, nodup⟩
    have whole : Visits (fun node => (store node).prev) tail (nodes.reverse ++ []) := by
      rwa [List.append_nil]
    refine ⟨forward.place_eq, ?_, nodup, piece_of_visits forward whole⟩
    rw [backward.place_eq, List.head?_reverse]
  · rintro ⟨rfl, rfl, nodup, piece⟩
    have whole : Visits (fun node => (store node).prev) (nodes.getLast?.or none)
        (nodes.reverse ++ []) := piece.backward rfl
    rw [Option.or_none, List.append_nil] at whole
    exact ⟨piece.forward, whole, nodup⟩

theorem linked_nil (store : N → Links N) : Linked store none none [] := ⟨rfl, rfl, List.nodup_nil⟩

/-- Nodes of other lists do not matter. -/
theorem Linked.congr (linked : Linked store head tail nodes)
    (same : ∀ node ∈ nodes, changed node = store node) :
    Linked changed head tail nodes := by
  obtain ⟨isHead, isTail, nodup, piece⟩ := linked_iff.mp linked
  exact linked_iff.mpr ⟨isHead, isTail, nodup, piece.congr same⟩

/-- A node is put between two pieces. -/
structure Splices (store changed : N → Links N) (front : List N) (node : N)
    (back : List N) : Prop where
  here : changed node = ⟨front.getLast?, back.head?⟩
  last : ∀ other, front.getLast? = some other →
    changed other = { store other with next := some node }
  first : ∀ other, back.head? = some other → changed other = { store other with prev := some node }
  rest : ∀ other, other ≠ node → front.getLast? ≠ some other → back.head? ≠ some other →
    changed other = store other

/-- A node is taken out from between two pieces. -/
structure Unsplices (store changed : N → Links N) (front : List N) (node : N)
    (back : List N) : Prop where
  here : changed node = ⟨none, none⟩
  last : ∀ other, front.getLast? = some other →
    changed other = { store other with next := back.head? }
  first : ∀ other, back.head? = some other →
    changed other = { store other with prev := front.getLast? }
  rest : ∀ other, other ≠ node → front.getLast? ≠ some other → back.head? ≠ some other →
    changed other = store other

/-- The first node of a list. -/
theorem Splices.alone (here : changed node = ⟨none, none⟩)
    (others : ∀ other, other ≠ node → changed other = store other) :
    Splices store changed [] node [] :=
  ⟨here, nofun, nofun, fun other apart _ _ => others other apart⟩

/-- Nodes of other lists are as they were. -/
theorem Splices.frame (splices : Splices store changed front node back) {other : N}
    (apart : other ≠ node) (outside : other ∉ front ++ back) : changed other = store other := by
  rw [List.mem_append, not_or] at outside
  exact splices.rest other apart (fun last => outside.1 (List.mem_of_getLast? last)) fun first =>
    outside.2 (List.mem_of_head? first)

theorem Unsplices.frame (unsplices : Unsplices store changed front node back) {other : N}
    (outside : other ∉ front ++ node :: back) : changed other = store other := by
  rw [List.mem_append, List.mem_cons, not_or, not_or] at outside
  exact unsplices.rest other outside.2.1 (fun last => outside.1 (List.mem_of_getLast? last))
    fun first => outside.2.2 (List.mem_of_head? first)

/-- The parts of a list on both sides of a place, when only the nodes at the place change. -/
theorem pieces_around {toFront toBack before behind : Option N} (nodup : (front ++ back).Nodup)
    (absent : node ∉ front ∧ node ∉ back) (frontPiece : Piece store none front behind)
    (backPiece : Piece store before back none)
    (last : ∀ other, front.getLast? = some other →
      changed other = { store other with next := toBack })
    (first : ∀ other, back.head? = some other →
      changed other = { store other with prev := toFront })
    (rest : ∀ other, other ≠ node → front.getLast? ≠ some other → back.head? ≠ some other →
      changed other = store other) :
    Piece changed none front toBack ∧ Piece changed toFront back none := by
  obtain ⟨frontNodup, backNodup, _⟩ := List.nodup_append.mp nodup
  have apart := List.disjoint_of_nodup_append nodup
  constructor
  · refine frontPiece.relast frontNodup (fun other member notLast => rest other ?_ notLast ?_) last
    · rintro rfl
      exact absent.1 member
    · exact fun first => apart member (List.mem_of_head? first)
  · refine backPiece.rehead backNodup (fun other member notFirst => rest other ?_ ?_ notFirst) first
    · rintro rfl
      exact absent.2 member
    · exact fun last => apart (List.mem_of_getLast? last) member

/-- A new node between two parts of a list. -/
theorem Splices.linked (splices : Splices store changed front node back)
    (linked : Linked store head tail (front ++ back)) (new : node ∉ front ++ back) :
    Linked changed ((front ++ node :: back).head?) ((front ++ node :: back).getLast?)
      (front ++ node :: back) := by
  obtain ⟨_, _, nodup, piece⟩ := linked_iff.mp linked
  obtain ⟨frontPiece, backPiece⟩ := piece_append.mp piece
  rw [List.mem_append, not_or] at new
  obtain ⟨frontPiece, backPiece⟩ :=
    pieces_around nodup new frontPiece backPiece splices.last splices.first splices.rest
  refine linked_iff.mpr ⟨rfl, rfl, ?_, piece_append.mpr ⟨frontPiece, ?_, ?_, backPiece⟩⟩
  · rw [List.nodup_middle, List.nodup_cons, List.mem_append, not_or]
    exact ⟨new, nodup⟩
  · rw [splices.here, Option.or_none]
  · rw [splices.here, Option.or_none]

/-- A node stands once in its list. -/
theorem Linked.around (linked : Linked store head tail (front ++ node :: back)) :
    (node ∉ front ∧ node ∉ back) ∧ (front ++ back).Nodup := by
  have nodup := linked.nodup
  rwa [List.nodup_middle, List.nodup_cons, List.mem_append, not_or] at nodup

theorem Linked.prev_eq (linked : Linked store head tail (front ++ node :: back)) :
    (store node).prev = front.getLast? := by
  obtain ⟨_, _, _, piece⟩ := linked_iff.mp linked
  have here := (piece_append.mp piece).2.1
  rwa [Option.or_none] at here

theorem Linked.next_eq (linked : Linked store head tail (front ++ node :: back)) :
    (store node).next = back.head? := by
  obtain ⟨_, _, _, piece⟩ := linked_iff.mp linked
  have here := (piece_append.mp piece).2.2.1
  rwa [Option.or_none] at here

/-- A node of a list is taken out. -/
theorem Unsplices.linked (unsplices : Unsplices store changed front node back)
    (linked : Linked store head tail (front ++ node :: back)) :
    Linked changed ((front ++ back).head?) ((front ++ back).getLast?) (front ++ back) := by
  obtain ⟨absent, nodup⟩ := linked.around
  obtain ⟨_, _, _, piece⟩ := linked_iff.mp linked
  obtain ⟨frontPiece, _, _, backPiece⟩ := piece_append.mp piece
  obtain ⟨frontPiece, backPiece⟩ :=
    pieces_around nodup absent frontPiece backPiece unsplices.last unsplices.first unsplices.rest
  refine linked_iff.mpr ⟨rfl, rfl, nodup, piece_append.mpr ?_⟩
  rw [Option.or_none, Option.or_none]
  exact ⟨frontPiece, backPiece⟩

end Freekick.Lib.Nodes
