import Freekick.Base.DictMap
import Freekick.Lib.Call
import Freekick.Lib.Objects
import Mathlib.Order.Lattice.Nat

/-!
# Items and their references: `fk_item.c`

Items are named by numbers, and the slots of lists and dictionaries hold such names.  The
items in use are objects; a released item goes to the list of free ones until that is full.
Using an item that is not in use is a fault.
-/

namespace Freekick.Refs

open Lib Lib.Call

/-- `FK_ITEM_NIL` to `FK_ITEM_NUM`. -/
inductive FkItemType where
  | nil
  | str
  | list
  | dict
  | sklist
  | num
  deriving DecidableEq, Repr

/-- What `entity` points to.  Nothing is ever stored in a skip list. -/
inductive Entity where
  | str (bytes : Bytes)
  | list (nodes : List Nat)
  | dict (fields : FkDict Nat Nat)
  | sklist
  | num (number : Int)
  deriving DecidableEq

def Entity.type : Entity → FkItemType
  | .str _ => .str
  | .list _ => .list
  | .dict _ => .dict
  | .sklist => .sklist
  | .num _ => .num

/-- The keys and values of a dictionary, in the order of its buckets. -/
def dictSlots (dct : FkDict Nat Nat) : List Nat := dct.elements.flatMap fun elt => [elt.1, elt.2]

def Entity.slots : Entity → List Nat
  | .list nodes => nodes
  | .dict fields => dictSlots fields
  | _ => []

/-- The entity without what is in it. -/
def Entity.emptied : Entity → Entity
  | .list _ => .list []
  | .dict _ => .dict fkDictInit
  | other => other

/-- `fk_item_t`.  An item has few slots, and `ref` does not overflow. -/
structure FkItem where
  type : FkItemType
  ref : Nat
  entity : Entity
  deriving DecidableEq

/-- `items_used` and `items_free`. -/
structure FkItems where
  used : Objects Nat FkItem
  free : List Nat

/-- The type and the entity of every item in use. -/
abbrev Content := Nat → Option (FkItemType × Entity)

def FkItems.content (items : FkItems) : Content :=
  fun id => (items.used.find id).map fun item => (item.type, item.entity)

namespace Content

variable (content : Content)

/-- The bytes of a string item. -/
def strOf (id : Nat) : Bytes :=
  match content id with
  | some (_, .str bytes) => bytes
  | _ => []

/-- `fk_db_dict_key_hash` and `fk_db_dict_key_cmp`. -/
def eop : FkEltOp Nat where
  keyHash := fun id => fkStrHash (content.strOf id)
  keyCmp := fun first second => fkStrCmp (content.strOf first) (content.strOf second)

end Content

def fkFreeItemMax : Nat := 1024

def fkItemInit : FkItems := ⟨.empty, []⟩

namespace FkItems

/-- An address that `fk_mem_alloc` can return. -/
def newAddress (items : FkItems) : Nat :=
  (items.used.live ∪ items.free.toFinset).sup (fun address => address) + 1

def fkItemCreate (type : FkItemType) (entity : Entity) : Act FkItems Nat := fun items =>
  match items.free with
  | id :: rest => .ok id { items with used := items.used.put id ⟨type, 0, entity⟩, free := rest }
  | [] =>
      .ok items.newAddress { items with used := items.used.put items.newAddress ⟨type, 0, entity⟩ }

def fkItemIncRef (id : Nat) : Act FkItems Unit := fun items =>
  match items.used.find id with
  | none => .fault
  | some item => .ok () { items with used := items.used.put id { item with ref := item.ref + 1 } }

/-- What the `switch` of `fk_item_dec_ref` goes through; it takes the entity by the type. -/
def released : FkItem → Option (List Nat)
  | ⟨.str, _, .str _⟩ => some []
  | ⟨.list, _, .list nodes⟩ => some nodes
  | ⟨.dict, _, .dict fields⟩ => some (dictSlots fields)
  | ⟨.num, _, .num _⟩ => some []
  | ⟨.sklist, _, _⟩ => some []
  | ⟨.nil, _, _⟩ => some []
  | _ => none

/-- The item goes from the used ones to the free ones, or its memory is given back. -/
def drop (id : Nat) : Act FkItems Unit :=
  Act.modify fun items => { items with
    used := items.used.drop id
    free := if items.free.length = fkFreeItemMax then items.free else items.free ++ [id] }

def setEntity (id : Nat) (entity : Entity) : Act FkItems Unit := fun items =>
  match items.used.find id with
  | none => .fault
  | some item => .ok () { items with used := items.used.put id { item with entity := entity } }

/-- Count down; whether the item is still referenced. -/
def countDown (id : Nat) : Act FkItems (Option FkItem) := fun items =>
  match items.used.find id with
  | none => .fault
  | some item =>
      let left := { item with ref := item.ref - 1 }
      .ok (if 0 < left.ref then none else some left) { items with used := items.used.put id left }

/-- `fk_list_destroy` and `fk_dict_destroy` take out one node or element after the other and
release it; no release looks at the entity that is destroyed, so it is emptied first. -/
def decRefLoop : Nat → Nat → Act FkItems Unit
  | 0, _ => Act.fault
  | fuel + 1, id => do
      match ← countDown id with
      | none => pure ()
      | some item =>
          match released item with
          | none => Act.fault
          | some slots => do
              setEntity id item.entity.emptied
              Act.forEach (decRefLoop fuel) slots
              drop id

/-- An item that is destroyed is not in itself, so the recursion is not deeper than the number
of items. -/
def fkItemDecRef (id : Nat) : Act FkItems Unit :=
  fun items => decRefLoop (items.used.live.card + 1) id items

end FkItems

end Freekick.Refs
