import Mathlib.Data.Nat.Digits.Lemmas

/-!
# Canonical decimal text

Byte strings of ASCII digits and the numbers they denote.  `decimal` prints a
number without leading zeros, `value` reads any digit string, and the two are
inverse on canonical text: a single `0`, or a string whose first digit is not
`0`.
-/

namespace Freekick.Lib.Decimal

/-- The ASCII code of `0`. -/
def zeroByte : UInt8 := 48

def isDigit (byte : UInt8) : Bool := zeroByte ≤ byte && byte ≤ 57

def digitByte (digit : Nat) : UInt8 := UInt8.ofNat (48 + digit)

def digitValue (byte : UInt8) : Nat := byte.toNat - 48

/-- The number a digit string denotes, most significant digit first. -/
def value (text : List UInt8) : Nat :=
  text.foldl (fun total byte => 10 * total + digitValue byte) 0

/-- The decimal text of a number, most significant digit first. -/
def decimal (number : Nat) : List UInt8 :=
  if number = 0 then [zeroByte]
  else (Nat.digits 10 number).reverse.map digitByte

/-- Canonical text: digits only, and no leading zero unless it is `0` itself. -/
structure Canonical (text : List UInt8) : Prop where
  nonempty : text ≠ []
  digits : ∀ byte ∈ text, isDigit byte = true
  leading : text.head? = some zeroByte → text.length = 1

theorem isDigit_iff (byte : UInt8) :
    isDigit byte = true ↔ 48 ≤ byte.toNat ∧ byte.toNat ≤ 57 := by
  simp only [isDigit, zeroByte, Bool.and_eq_true, decide_eq_true_eq, UInt8.le_iff_toNat_le]
  exact Iff.rfl

theorem toNat_digitByte {digit : Nat} (small : digit < 10) :
    (digitByte digit).toNat = 48 + digit := by
  simp only [digitByte, UInt8.toNat_ofNat']
  omega

theorem isDigit_digitByte {digit : Nat} (small : digit < 10) :
    isDigit (digitByte digit) = true := by
  rw [isDigit_iff, toNat_digitByte small]
  omega

theorem digitValue_digitByte {digit : Nat} (small : digit < 10) :
    digitValue (digitByte digit) = digit := by
  rw [digitValue, toNat_digitByte small]
  omega

theorem digitByte_digitValue {byte : UInt8} (digit : isDigit byte = true) :
    digitByte (digitValue byte) = byte := by
  have bounds := (isDigit_iff byte).mp digit
  apply UInt8.toNat_inj.mp
  rw [toNat_digitByte (by unfold digitValue; omega), digitValue]
  omega

theorem digitValue_lt {byte : UInt8} (digit : isDigit byte = true) :
    digitValue byte < 10 := by
  have bounds := (isDigit_iff byte).mp digit
  unfold digitValue
  omega

/-- Reading text is Mathlib's little-endian evaluation of the reversed digits. -/
theorem value_eq_ofDigits (text : List UInt8) :
    value text = Nat.ofDigits 10 (text.map digitValue).reverse := by
  induction text using List.reverseRecOn with
  | nil => rfl
  | append_singleton front last ih =>
      rw [value, List.foldl_append]
      change 10 * value front + digitValue last = _
      rw [ih, List.map_append, List.reverse_append, List.map_singleton, List.reverse_singleton,
        List.singleton_append, Nat.ofDigits_cons]
      exact Nat.add_comm _ _

theorem decimal_digits (number : Nat) : ∀ byte ∈ decimal number, isDigit byte = true := by
  intro byte member
  unfold decimal at member
  split at member
  · rw [List.mem_singleton] at member
    subst member
    rfl
  · obtain ⟨digit, inDigits, rfl⟩ := List.mem_map.mp member
    exact isDigit_digitByte (Nat.digits_lt_base (by decide) (List.mem_reverse.mp inDigits))

theorem decimal_ne_nil (number : Nat) : decimal number ≠ [] := by
  unfold decimal
  split
  · exact List.cons_ne_nil _ _
  · next positive =>
      intro empty
      rw [List.map_eq_nil_iff, List.reverse_eq_nil_iff] at empty
      exact positive (Nat.digits_eq_nil_iff_eq_zero.mp empty)

/-- A positive number is printed with a nonzero first digit. -/
theorem decimal_head_ne_zero {number : Nat} (positive : 0 < number) :
    (decimal number).head? ≠ some zeroByte := by
  intro zeroHead
  have nonzero : number ≠ 0 := Nat.pos_iff_ne_zero.mp positive
  have digitsNonempty : Nat.digits 10 number ≠ [] := Nat.digits_ne_nil_iff_ne_zero.mpr nonzero
  rw [decimal, if_neg nonzero, List.head?_map, List.head?_reverse,
    List.getLast?_eq_some_getLast digitsNonempty, Option.map_some, Option.some.injEq] at zeroHead
  have small : (Nat.digits 10 number).getLast digitsNonempty < 10 :=
    Nat.digits_lt_base (by decide) (List.getLast_mem digitsNonempty)
  have lastZero : (Nat.digits 10 number).getLast digitsNonempty = 0 := by
    rw [← digitValue_digitByte small, zeroHead]
    rfl
  exact Nat.getLast_digit_ne_zero 10 nonzero lastZero

theorem decimal_canonical (number : Nat) : Canonical (decimal number) where
  nonempty := decimal_ne_nil number
  digits := decimal_digits number
  leading := by
    intro zeroHead
    rcases Nat.eq_zero_or_pos number with zero | positive
    · subst zero
      rfl
    · exact False.elim (decimal_head_ne_zero positive zeroHead)

/-- Reading back a printed number. -/
@[simp]
theorem value_decimal (number : Nat) : value (decimal number) = number := by
  unfold decimal
  split
  · next zero =>
      subst zero
      rfl
  · rw [value_eq_ofDigits, List.map_map]
    have restored : (Nat.digits 10 number).reverse.map (digitValue ∘ digitByte) =
        (Nat.digits 10 number).reverse := by
      refine (List.map_congr_left ?_).trans (List.map_id _)
      intro digit member
      exact digitValue_digitByte (Nat.digits_lt_base (by decide) (List.mem_reverse.mp member))
    rw [restored, List.reverse_reverse, Nat.ofDigits_digits]

theorem decimal_injective {first second : Nat} (same : decimal first = decimal second) :
    first = second := by
  rw [← value_decimal first, same, value_decimal]

/-- Canonical text is printed back unchanged by its value. -/
theorem decimal_value {text : List UInt8} (canonical : Canonical text) :
    decimal (value text) = text := by
  by_cases zeroHead : text.head? = some zeroByte
  · have single := canonical.leading zeroHead
    obtain ⟨byte, rfl⟩ := List.length_eq_one_iff.mp single
    have same : byte = zeroByte := Option.some.inj zeroHead
    subst same
    rfl
  · have restored : (text.map digitValue).map digitByte = text := by
      rw [List.map_map]
      refine (List.map_congr_left ?_).trans (List.map_id _)
      intro byte member
      exact digitByte_digitValue (canonical.digits byte member)
    have below : ∀ digit ∈ (text.map digitValue).reverse, digit < 10 := by
      intro digit member
      obtain ⟨byte, inText, rfl⟩ := List.mem_map.mp (List.mem_reverse.mp member)
      exact digitValue_lt (canonical.digits byte inText)
    have leadingNonzero : ∀ nonempty : (text.map digitValue).reverse ≠ [],
        (text.map digitValue).reverse.getLast nonempty ≠ 0 := by
      intro nonempty zeroLast
      cases text with
      | nil => exact canonical.nonempty rfl
      | cons first rest =>
          rw [List.getLast_reverse] at zeroLast
          apply zeroHead
          rw [List.head?_cons, ← digitByte_digitValue
            (canonical.digits first (List.mem_cons_self ..))]
          rw [show digitValue first = 0 from zeroLast]
          rfl
    have digitsEq : Nat.digits 10 (value text) = (text.map digitValue).reverse := by
      rw [value_eq_ofDigits]
      exact Nat.digits_ofDigits 10 (by decide) _ below leadingNonzero
    have nonzero : value text ≠ 0 := by
      intro zero
      rw [zero, Nat.digits_zero] at digitsEq
      have empty := List.map_eq_nil_iff.mp (List.reverse_eq_nil_iff.mp digitsEq.symm)
      exact canonical.nonempty empty
    rw [decimal, if_neg nonzero, digitsEq, List.reverse_reverse, restored]

/-- A number below `10 ^ width` is printed in at most `width` digits. -/
theorem length_decimal_le {number width : Nat} (positive : 0 < width)
    (below : number < 10 ^ width) : (decimal number).length ≤ width := by
  unfold decimal
  split
  · exact positive
  · rw [List.length_map, List.length_reverse]
    exact (Nat.digits_length_le_iff (by decide) number).mpr below

/-- Text of `width` digits denotes a number below `10 ^ width`. -/
theorem value_lt {text : List UInt8} (digits : ∀ byte ∈ text, isDigit byte = true) :
    value text < 10 ^ text.length := by
  rw [value_eq_ofDigits]
  have bound := @Nat.ofDigits_lt_base_pow_length 10 (text.map digitValue).reverse
    (by decide) (by
      intro digit member
      obtain ⟨byte, inText, rfl⟩ := List.mem_map.mp (List.mem_reverse.mp member)
      exact digitValue_lt (digits byte inText))
  simpa only [List.length_reverse, List.length_map] using bound

end Freekick.Lib.Decimal
