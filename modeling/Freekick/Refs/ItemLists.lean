import Freekick.Base.RawLists
import Freekick.Refs.Exact

/-!
# The lists of the items: `items_used` and `items_free`

An item is linked into one of two raw lists, or into neither.  The links follow the items
in use and the free ones.
-/

namespace Freekick.Refs

open Lib Lib.Call

inductive FkItemList where
  | used
  | free
  deriving DecidableEq, Repr

/-- The list part of `fk_item_create`, with the memory that a new item gets. -/
def fkItemCreateLists (state : RawLists FkItemList Nat) (alloc : Nat) :
    Option (Nat × RawLists FkItemList Nat) :=
  if (state.lists .free).len > 0 then
    (state.lists .free).head.bind fun itm =>
      (listStep state (.removeAnyone .free itm)).bind fun state =>
        (listStep state (.insertHead .used itm)).map fun state => (itm, state)
  else
    let state := { state with store := Function.update state.store alloc ⟨none, none⟩ }
    (listStep state (.insertHead .used alloc)).map fun state => (alloc, state)

/-- The list part of `fk_item_dec_ref`, for an item that is not referenced any more. -/
def fkItemDecRefLists (state : RawLists FkItemList Nat) (itm : Nat) :
    Option (RawLists FkItemList Nat) :=
  (listStep state (.removeAnyone .used itm)).bind fun state =>
    if (state.lists .free).len = fkFreeItemMax then some state
    else listStep state (.insertTail .free itm)

def itemSeqs (used free : List Nat) : FkItemList → List Nat
  | .used => used
  | .free => free

/-- The lists hold the items in use, in some order, and the free ones. -/
structure Represents (state : RawLists FkItemList Nat) (used : List Nat)
    (items : FkItems) : Prop where
  hold : state.Hold (itemSeqs used items.free)
  live : ∀ id, id ∈ used ↔ id ∈ items.used.live

variable {state : RawLists FkItemList Nat} {used free : List Nat} {items after : FkItems} {id : Nat}

theorem removeUsed (used free : List Nat) (id : Nat) :
    ListOp.apply (itemSeqs used free) (.removeAnyone .used id) = itemSeqs (used.erase id) free := by
  funext list
  cases list <;> simp [ListOp.apply, itemSeqs]

theorem insertUsed (used free : List Nat) (id : Nat) :
    ListOp.apply (itemSeqs used free) (.insertHead .used id) = itemSeqs (id :: used) free := by
  funext list
  cases list <;> simp [ListOp.apply, itemSeqs]

theorem removeFree (used free : List Nat) (id : Nat) :
    ListOp.apply (itemSeqs used (id :: free)) (.removeAnyone .free id) = itemSeqs used free := by
  funext list
  cases list <;> simp [ListOp.apply, itemSeqs]

theorem insertFree (used free : List Nat) (id : Nat) :
    ListOp.apply (itemSeqs used free) (.insertTail .free id) = itemSeqs used (free ++ [id]) := by
  funext list
  cases list <;> simp [ListOp.apply, itemSeqs]

theorem hold_scribbled (hold : state.Hold (itemSeqs used free)) (links : Nodes.Links Nat)
    (unused : id ∉ used) (unfree : id ∉ free) :
    RawLists.Hold { state with store := Function.update state.store id links }
      (itemSeqs used free) where
  apart := hold.apart
  holds := by
    refine fun list => (hold.holds list).congr fun other member => Function.update_of_ne ?_ ..
    rintro rfl
    cases list with
    | used => exact unused member
    | free => exact unfree member

/-- A new item comes from the free ones or from the allocator, and it is in neither list
when it is inserted. -/
theorem fkItemCreateLists_follows (represents : Represents state used items) {type : FkItemType}
    {entity : Entity} (created : FkItems.fkItemCreate type entity items = .ok id after) :
    ∃ next, fkItemCreateLists state items.newAddress = some (id, next) ∧
      Represents next (id :: used) after := by
  have hold := represents.hold
  have len : (state.lists .free).len = items.free.length := (hold.holds .free).len
  have head : (state.lists .free).head = items.free.head? :=
    (Nodes.linked_iff.mp (hold.holds .free).linked).1
  unfold FkItems.fkItemCreate at created
  unfold fkItemCreateLists
  cases isFree : items.free with
  | cons itm rest =>
      rw [isFree] at created len head hold
      cases created
      have unused : id ∉ used := hold.apart .free .used nofun (List.mem_cons_self ..)
      have nodup : (id :: rest).Nodup := (hold.holds .free).linked.nodup
      have isFirst : (ListOp.removeAnyone FkItemList.free id).Admitted
          (itemSeqs used (id :: rest)) := List.mem_cons_self ..
      obtain ⟨middle, removed, does⟩ := listStep_does hold isFirst
      have kept := removeFree used rest id ▸ does.hold
      have admitted : (ListOp.insertHead FkItemList.used id).Admitted (itemSeqs used rest) := by
        rintro (_ | _)
        · exact unused
        · exact (List.nodup_cons.mp nodup).1
      obtain ⟨next, inserted, does⟩ := listStep_does kept admitted
      rw [if_pos (by rw [len, List.length_cons]; exact Nat.succ_pos _), head]
      refine ⟨next, ?_, insertUsed used rest id ▸ does.hold, fun other => ?_⟩
      · rw [List.head?_cons, Option.bind_some, removed, Option.bind_some, inserted]
        rfl
      · simp [Objects.put, represents.live]
  | nil =>
      rw [isFree] at created len hold
      cases created
      obtain ⟨unused, apart⟩ := FkItems.newAddress_unused items
      have notUsed : items.newAddress ∉ used := by
        rw [represents.live, items.used.live_iff, unused]
        exact Bool.false_ne_true
      have admitted : (ListOp.insertHead FkItemList.used items.newAddress).Admitted
          (itemSeqs used []) := by
        rintro (_ | _)
        · exact notUsed
        · exact List.not_mem_nil
      obtain ⟨next, inserted, does⟩ :=
        listStep_does (hold_scribbled hold ⟨none, none⟩ notUsed List.not_mem_nil) admitted
      rw [if_neg (by rw [len]; exact Nat.lt_irrefl 0)]
      refine ⟨next, ?_, ?_, fun other => ?_⟩
      · dsimp only
        rw [inserted]
        rfl
      · have kept := does.hold
        rwa [insertUsed] at kept
      · simp [Objects.put, represents.live]

/-- A released item leaves the used ones before it goes to the free ones. -/
theorem fkItemDecRefLists_follows (represents : Represents state used items) (member : id ∈ used)
    (dropped : FkItems.drop id items = .ok () after) :
    ∃ next, fkItemDecRefLists state id = some next ∧ Represents next (used.erase id) after := by
  have hold := represents.hold
  have notFree : id ∉ items.free := hold.apart .used .free nofun member
  have nodup : used.Nodup := (hold.holds .used).linked.nodup
  have live : ∀ other, other ∈ used.erase id ↔ other ∈ (items.used.drop id).live := by
    intro other
    rw [nodup.mem_erase_iff, represents.live]
    exact Finset.mem_erase.symm
  have isUsed : (ListOp.removeAnyone FkItemList.used id).Admitted (itemSeqs used items.free) :=
    member
  obtain ⟨middle, removed, does⟩ := listStep_does hold isUsed
  have kept := removeUsed used items.free id ▸ does.hold
  have len : (middle.lists .free).len = items.free.length := (kept.holds .free).len
  cases dropped
  unfold fkItemDecRefLists
  rw [removed, Option.bind_some, len]
  by_cases full : items.free.length = fkFreeItemMax
  · rw [if_pos full]
    refine ⟨middle, rfl, ?_, live⟩
    dsimp only
    rwa [if_pos full]
  · rw [if_neg full]
    have admitted : (ListOp.insertTail FkItemList.free id).Admitted
        (itemSeqs (used.erase id) items.free) := by
      rintro (_ | _)
      · exact nodup.not_mem_erase
      · exact notFree
    obtain ⟨next, inserted, does⟩ := listStep_does kept admitted
    refine ⟨next, inserted, ?_, live⟩
    dsimp only
    rw [if_neg full]
    exact insertFree (used.erase id) items.free id ▸ does.hold

end Freekick.Refs
