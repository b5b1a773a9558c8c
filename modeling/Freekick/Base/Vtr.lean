import Mathlib.Data.List.Basic

/-!
# Pointer vectors: `fk_vtr.h`

The slots are `NULL` or hold an item; the length of the list of slots is the
`len` field.  The macros access a slot without a check, so an access outside the
array is an undefined outcome here, `none`.
-/

namespace Freekick

structure FkVtr (α : Type) where
  initLen : Nat
  array : List (Option α)
  deriving DecidableEq, Repr

variable {α : Type}

def fkVtrCreate (initLen : Nat) : FkVtr α := ⟨initLen, List.replicate initLen none⟩

namespace FkVtr

def fkVtrLen (vtr : FkVtr α) : Nat := vtr.array.length

def fkVtrSet (vtr : FkVtr α) (idx : Nat) (val : Option α) : Option (FkVtr α) :=
  if idx < vtr.fkVtrLen then some { vtr with array := vtr.array.set idx val } else none

def fkVtrStretch (vtr : FkVtr α) (length : Nat) : FkVtr α :=
  if vtr.fkVtrLen < length then
    { vtr with array := vtr.array ++ List.replicate (length - vtr.fkVtrLen) none }
  else vtr

def fkVtrShrink (vtr : FkVtr α) : FkVtr α :=
  if vtr.initLen < vtr.fkVtrLen then { vtr with array := vtr.array.take vtr.initLen } else vtr

/-- A vector of `len` slots whose first slots hold `items` and whose other slots are empty. -/
def filled (initLen len : Nat) (items : List α) : FkVtr α :=
  ⟨initLen, items.map some ++ List.replicate (len - items.length) none⟩

theorem fkVtrLen_filled {initLen len : Nat} {items : List α} (fits : items.length ≤ len) :
    (filled initLen len items).fkVtrLen = len := by
  rw [fkVtrLen, filled, List.length_append, List.length_map, List.length_replicate]
  omega

theorem fkVtrStretch_filled (initLen len length : Nat) :
    (filled initLen len ([] : List α)).fkVtrStretch length =
      filled initLen (max len length) [] := by
  rw [fkVtrStretch, fkVtrLen_filled (Nat.zero_le len)]
  split
  · next longer =>
      simp only [filled, List.map_nil, List.length_nil, List.nil_append, Nat.sub_zero,
        ← List.replicate_add]
      rw [Nat.max_eq_right (Nat.le_of_lt longer), Nat.add_sub_cancel' (Nat.le_of_lt longer)]
  · next shorter => rw [Nat.max_eq_left (Nat.le_of_not_lt shorter)]

/-- Writing the first empty slot extends the items. -/
theorem fkVtrSet_filled {initLen len : Nat} {items : List α} (item : α)
    (room : items.length < len) :
    (filled initLen len items).fkVtrSet items.length (some item) =
      some (filled initLen len (items ++ [item])) := by
  rw [fkVtrSet, if_pos (by rwa [fkVtrLen_filled (Nat.le_of_lt room)])]
  obtain ⟨extra, rfl⟩ : ∃ extra, len = items.length + (extra + 1) :=
    ⟨len - items.length - 1, by omega⟩
  simp only [filled, Option.some.injEq, FkVtr.mk.injEq, true_and]
  rw [List.set_append_right _ _ (Nat.le_of_eq (List.length_map _)), List.length_map, Nat.sub_self,
    Nat.add_sub_cancel_left, List.replicate_succ, List.set_cons_zero, List.map_append,
    List.append_assoc]
  congr 2
  simp only [List.length_append, List.length_singleton]
  congr 1
  omega

theorem fkVtrShrink_filled {initLen len : Nat} {items : List α} (fits : items.length ≤ len)
    (kept : items.length ≤ initLen) (grown : initLen ≤ len) :
    (filled initLen len items).fkVtrShrink = filled initLen initLen items := by
  rw [fkVtrShrink, fkVtrLen_filled fits]
  split
  · simp only [filled, FkVtr.mk.injEq, true_and]
    rw [List.take_append, List.length_map, List.take_of_length_le (by rwa [List.length_map]),
      List.take_replicate]
    congr 2
    omega
  · next same =>
      have equal : len = initLen := Nat.le_antisymm (Nat.le_of_not_lt same) grown
      rw [equal]

theorem take_filled {initLen len : Nat} (items : List α) :
    (filled initLen len items).array.take items.length = items.map some := by
  rw [filled, List.take_left' (by rw [List.length_map])]

end FkVtr

end Freekick
