import Mathlib.Logic.Function.Basic

/-!
# The timer heap: `fk_heap.c`

Leaves are pointers and carry their position; slot zero of the tree is not used.
`none` as the result of an operation is a null pointer dereferenced.  Removal
moves the last leaf into the gap and sifts it down, and only down.
-/

namespace Freekick

def fkHeapInitSize : Nat := 64

/-- `tree` holds the slots and `idx` the position field of every leaf. -/
structure FkHeap (L : Type) where
  size : Nat
  last : Nat
  tree : Nat → Option L
  idx : L → Nat

variable {L : Type}

def fkHeapCreate : FkHeap L where
  size := fkHeapInitSize
  last := 0
  tree := fun _ => none
  idx := fun _ => 0

def fkHeapStretch (hp : FkHeap L) : FkHeap L :=
  { hp with
    size := hp.size <<< 1
    tree := fun i => if hp.size ≤ i then none else hp.tree i }

def fkHeapRoot (hp : FkHeap L) : Option L := if hp.last = 0 then none else hp.tree 1

variable [DecidableEq L]

namespace FkHeap

/-- `tree[i] = leaf` and `tree[i]->idx = i`. -/
def put (hp : FkHeap L) (i : Nat) (leaf : L) : FkHeap L :=
  { hp with
    tree := Function.update hp.tree i (some leaf)
    idx := Function.update hp.idx leaf i }

/-- The smaller child of position `i` and where it is. -/
def least (leafCmp : L → L → Int) (hp : FkHeap L) (i : Nat) : Option (L × Nat) := do
  let left ← hp.tree (i <<< 1)
  if (i <<< 1) + 1 ≤ hp.last then
    let right ← hp.tree ((i <<< 1) + 1)
    if 0 < leafCmp left right then some (right, (i <<< 1) + 1) else some (left, i <<< 1)
  else some (left, i <<< 1)

/-- The loop of `fk_heap_remove`.  The position at least doubles in every round, so
`last` is enough fuel. -/
def siftDown (leafCmp : L → L → Int) : Nat → FkHeap L → Nat → Option (FkHeap L)
  | 0, hp, _ => some hp
  | fuel + 1, hp, i =>
      if i <<< 1 ≤ hp.last then do
        let parent ← hp.tree i
        let (min, j) ← hp.least leafCmp i
        if 0 < leafCmp parent min then siftDown leafCmp fuel ((hp.put i min).put j parent) j
        else some hp
      else some hp

/-- The loop of `fk_heap_push`. -/
def siftUp (leafCmp : L → L → Int) : Nat → FkHeap L → Nat → Option (FkHeap L)
  | 0, hp, _ => some hp
  | fuel + 1, hp, i =>
      if 0 < i >>> 1 then do
        let leaf ← hp.tree i
        let parent ← hp.tree (i >>> 1)
        if leafCmp leaf parent < 0 then
          siftUp leafCmp fuel ((hp.put (i >>> 1) leaf).put i parent) (i >>> 1)
        else some hp
      else some hp

end FkHeap

open FkHeap

/-- Steps 1 to 4 of `fk_heap_remove`: the last leaf takes the place of the removed one. -/
def FkHeap.cut (hp : FkHeap L) (leaf moved : L) : FkHeap L :=
  let filled := hp.put (hp.idx leaf) moved
  { filled with
    tree := Function.update filled.tree hp.last none
    last := hp.last - 1
    idx := Function.update filled.idx leaf 0 }

def fkHeapRemove (leafCmp : L → L → Int) (hp : FkHeap L) (leaf : L) : Option (FkHeap L) :=
  let idx := hp.idx leaf
  if idx < 1 ∨ hp.last < idx then some hp
  else do
    let moved ← hp.tree hp.last
    siftDown leafCmp (hp.last - 1) (hp.cut leaf moved) idx

def fkHeapPop (leafCmp : L → L → Int) (hp : FkHeap L) : Option (Option L × FkHeap L) :=
  if hp.last < 1 then some (none, hp)
  else do
    let root ← hp.tree 1
    let rest ← fkHeapRemove leafCmp hp root
    some (some root, rest)

def fkHeapPush (leafCmp : L → L → Int) (hp : FkHeap L) (leaf : L) : Option (FkHeap L) :=
  let roomy := if hp.last = hp.size - 1 then fkHeapStretch hp else hp
  let added := ({ roomy with last := roomy.last + 1 } : FkHeap L).put (roomy.last + 1) leaf
  siftUp leafCmp added.last added added.last

end Freekick
