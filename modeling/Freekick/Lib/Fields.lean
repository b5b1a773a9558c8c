import Mathlib.Data.List.TakeWhile

/-!
# Fields of a text

The fields are the longest runs of items that are no separators, in their order.
Separators at either end and several of them in a row make no empty field.
-/

namespace Freekick.Lib.Fields

variable {A : Type} {sep : A → Bool} {text word rest : List A}

def fields (sep : A → Bool) (text : List A) : List (List A) :=
  (text.splitOnP sep).filter fun run => !run.isEmpty

theorem fields_nil : fields sep [] = [] := by
  rw [fields, List.splitOnP_nil]
  rfl

theorem fields_cons_sep {item : A} (separates : sep item = true) : fields sep
    (item :: rest) = fields sep rest := by
  rw [fields, List.splitOnP_cons_eq_if_modifyHead, if_pos separates]
  rfl

/-- A word with a separator or nothing behind it is the first field. -/
theorem fields_word (nonempty : word ≠ []) (plain : ∀ item ∈ word, sep item = false)
    (stops : ∀ item, rest.head? = some item → sep item = true) :
    fields sep (word ++ rest) = word :: fields sep rest := by
  have kept : (!word.isEmpty) = true := by
    rw [Bool.not_eq_true', List.isEmpty_eq_false_iff]
    exact nonempty
  cases rest with
  | nil =>
      rw [List.append_nil, fields, List.splitOnP_eq_singleton plain, List.filter_cons,
        if_pos kept, fields_nil]
      rfl
  | cons item rest =>
      have separates := stops item rfl
      rw [fields, List.splitOnP_append_cons_of_forall_mem plain item separates, List.filter_cons,
        if_pos kept, fields_cons_sep separates]
      rfl

/-- A separator at the end makes no field. -/
theorem fields_append_sep {item : A} (separates : sep item = true) (text : List A) :
    fields sep (text ++ [item]) = fields sep text := by
  rw [fields, List.splitOnP_append_cons text [] separates, List.splitOnP_nil, List.filter_append]
  exact List.append_nil _

/-- Any other item is in a field. -/
theorem all_of_fields_eq_nil (none : fields sep text = []) : ∀ item ∈ text, sep item = true := by
  induction text with
  | nil => exact fun _ member => nomatch member
  | cons item rest ih =>
      by_cases separates : sep item = true
      · rw [fields_cons_sep separates] at none
        exact List.forall_mem_cons.mpr ⟨separates, ih none⟩
      · obtain ⟨run, runs, split⟩ := List.exists_cons_of_ne_nil (List.splitOnP_ne_nil sep rest)
        rw [fields, List.splitOnP_cons_eq_if_modifyHead, if_neg separates, split] at none
        cases none

end Freekick.Lib.Fields
