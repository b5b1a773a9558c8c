import Freekick.Lib.Decimal
import Mathlib.Data.List.TakeWhile

/-!
# Utilities: `fk_util.c`, `fk_str.c` and the C library functions they rest on

Bytes are unsigned here.  The sequence checks compare characters with `'0'` and
`'9'` only, so the sign of `char` does not matter to them; it does matter to
`fk_str_hash`, which adds the signed character.
-/

namespace Freekick

open Lib.Decimal

abbrev Bytes := List UInt8

instance : LawfulBEq Bytes := inferInstance

/-- The bytes of a string literal. -/
def ascii (literal : String) : Bytes := literal.toList.map fun char => UInt8.ofNat char.toNat

/-- The return codes of `fk_svr.h` that the modelled functions use. -/
inductive FkRt where
  | ok
  | err
  | again
  | done
  deriving DecidableEq, Repr

/-! ## Comparison functions -/

section Comparison

variable {L : Type} {leafCmp : L → L → Int}

/-- A comparison function of a total preorder: swapping the arguments turns the sign. -/
structure LeafOrder (leafCmp : L → L → Int) : Prop where
  swap : ∀ first second, leafCmp first second ≤ 0 ↔ 0 ≤ leafCmp second first
  trans : ∀ first second third, leafCmp first second ≤ 0 → leafCmp second third ≤ 0 →
    leafCmp first third ≤ 0

theorem LeafOrder.refl (order : LeafOrder leafCmp) (leaf : L) : leafCmp leaf leaf ≤ 0 := by
  have turned := order.swap leaf leaf
  omega

theorem LeafOrder.of_pos (order : LeafOrder leafCmp) {first second : L}
    (greater : 0 < leafCmp first second) : leafCmp second first ≤ 0 :=
  (order.swap second first).mpr (Int.le_of_lt greater)

end Comparison

/-! ## C library -/

/-- Conversion of an integer to a 32-bit `int`. -/
def toInt32 (number : Int) : Int := Int.bmod number (2 ^ 32)

def isSpace (byte : UInt8) : Bool := byte == 32 || (9 ≤ byte && byte ≤ 13)

/-- Clamping to the 64-bit `long` range, as `strtol` does on overflow. -/
def saturate64 (number : Int) : Int := max (-(2 ^ 63)) (min number (2 ^ 63 - 1))

/-- `strtol` in base ten: blanks, an optional sign, then the longest run of digits. -/
def strtol (text : Bytes) : Int :=
  match text.dropWhile isSpace with
  | 45 :: rest => saturate64 (-(value (rest.takeWhile isDigit) : Int))
  | 43 :: rest => saturate64 (value (rest.takeWhile isDigit))
  | rest => saturate64 (value (rest.takeWhile isDigit))

def atoi (text : Bytes) : Int := toInt32 (strtol text)

/-- The position of a byte among the first `count` bytes. -/
def memchr (bytes : Bytes) (byte : UInt8) (count : Nat) : Option Nat :=
  (bytes.take count).idxOf? byte

/-- What `%s` prints of a string: the bytes before the first zero. -/
def cString (bytes : Bytes) : Bytes := bytes.takeWhile (· != 0)

/-- The sign of the first difference between two blocks of equal length. -/
def memcmp : Bytes → Bytes → Int
  | first :: left, second :: right =>
      if first = second then memcmp left right else (first.toNat : Int) - second.toNat
  | _, _ => 0

/-! ## `fk_util.c` -/

def fkUtilIsPositiveSeq : Bytes → Bool
  | [] => false
  | first :: rest => isDigit first && first != zeroByte && rest.all isDigit

def fkUtilIsNonminusSeq : Bytes → Bool
  | [] => false
  | first :: rest =>
      if !isDigit first then false
      else if first = zeroByte then rest.isEmpty
      else rest.all isDigit

/-- The least power of two above `n`.  From `2 ^ 30` on the shift `1 << q` leaves
`int` and the result is undefined. -/
def fkUtilMinPower (n : Nat) : Option Nat :=
  if n = 0 then some 1
  else if n < 2 ^ 30 then some (2 ^ (n.log2 + 1))
  else none

/-- The characters `%d` prints for a number, as `fk_util_decimal_digit` counts them. -/
def fkUtilDecimalDigit (number : Int) : Nat :=
  (if number < 0 then 1 else 0) + (decimal number.natAbs).length

/-! ## `fk_str.c` -/

/-- Lengths are at most `FK_ARG_HIGHWAT`, so their difference fits an `int`. -/
def fkStrCmp (first second : Bytes) : Int :=
  if first.length ≠ second.length then (first.length : Int) - second.length
  else memcmp first second

/-- `(hash << 5) + hash + c` in 32 bits; the character is signed. -/
def fkStrHash (text : Bytes) : UInt32 :=
  text.foldl (fun hash byte => (hash <<< 5) + hash + byte.toInt8.toInt32.toUInt32) 5381

def fkStr2upper (text : Bytes) : Bytes :=
  text.map fun byte => if 97 ≤ byte && byte ≤ 122 then byte - 32 else byte

/-! ## Facts -/

theorem memcmp_eq_zero_iff {first second : Bytes} (sameLength : first.length = second.length) :
    memcmp first second = 0 ↔ first = second := by
  induction first generalizing second with
  | nil =>
      cases second with
      | nil => exact ⟨fun _ => rfl, fun _ => rfl⟩
      | cons head tail => cases sameLength
  | cons byte rest ih =>
      cases second with
      | nil => cases sameLength
      | cons other tail =>
          rw [memcmp]
          by_cases same : byte = other
          · subst same
            rw [if_pos rfl, ih (Nat.succ.inj sameLength), List.cons.injEq, and_iff_right rfl]
          · have different : byte.toNat ≠ other.toNat :=
              fun equal => same (UInt8.toNat_inj.mp equal)
            rw [if_neg same, List.cons.injEq]
            constructor
            · intro zero
              omega
            · intro equal
              exact False.elim (same equal.1)

/-- String comparison decides equality. -/
theorem fkStrCmp_eq_zero_iff (first second : Bytes) : fkStrCmp first second = 0 ↔
    first = second := by
  unfold fkStrCmp
  by_cases sameLength : first.length = second.length
  · rw [if_neg (not_not_intro sameLength), memcmp_eq_zero_iff sameLength]
  · rw [if_pos sameLength]
    constructor
    · intro zero
      omega
    · intro same
      exact False.elim (sameLength (congrArg List.length same))

/-- The two sequence checks accept canonical decimal text only. -/
theorem fkUtilIsNonminusSeq_iff (text : Bytes) :
    fkUtilIsNonminusSeq text = true ↔ Canonical text := by
  cases text with
  | nil =>
      exact ⟨fun impossible => (by cases impossible),
        fun canonical => (canonical.nonempty rfl).elim⟩
  | cons first rest =>
      rw [fkUtilIsNonminusSeq]
      by_cases digit : isDigit first = true
      · rw [if_neg (by simp [digit])]
        by_cases zero : first = zeroByte
        · rw [if_pos zero, List.isEmpty_iff]
          constructor
          · intro empty
            subst empty
            refine ⟨List.cons_ne_nil _ _, ?_, fun _ => rfl⟩
            intro byte member
            rw [List.mem_singleton] at member
            exact member ▸ digit
          · intro canonical
            have single := canonical.leading (congrArg some zero)
            exact List.eq_nil_of_length_eq_zero (Nat.succ.inj single)
        · rw [if_neg zero, List.all_eq_true]
          constructor
          · intro all
            refine ⟨List.cons_ne_nil _ _, ?_, fun head => (zero (Option.some.inj head)).elim⟩
            intro byte member
            rcases List.mem_cons.mp member with same | inRest
            · exact same ▸ digit
            · exact all byte inRest
          · intro canonical byte member
            exact canonical.digits byte (List.mem_cons_of_mem _ member)
      · rw [if_pos (by simp [digit])]
        constructor
        · intro impossible
          cases impossible
        · intro canonical
          exact (digit (canonical.digits first (List.mem_cons_self ..))).elim

theorem fkUtilIsPositiveSeq_iff (text : Bytes) :
    fkUtilIsPositiveSeq text = true ↔ Canonical text ∧ text.head? ≠ some zeroByte := by
  cases text with
  | nil =>
      exact ⟨fun impossible => (by cases impossible),
        fun canonical => (canonical.1.nonempty rfl).elim⟩
  | cons first rest =>
      rw [fkUtilIsPositiveSeq, Bool.and_eq_true, Bool.and_eq_true, List.all_eq_true, bne_iff_ne]
      constructor
      · rintro ⟨⟨digit, nonzero⟩, all⟩
        refine ⟨⟨List.cons_ne_nil _ _, ?_, ?_⟩, ?_⟩
        · intro byte member
          rcases List.mem_cons.mp member with same | inRest
          · exact same ▸ digit
          · exact all byte inRest
        · intro head
          exact (nonzero (Option.some.inj head)).elim
        · intro head
          exact nonzero (Option.some.inj head)
      · rintro ⟨canonical, nonzero⟩
        refine ⟨⟨canonical.digits first (List.mem_cons_self ..), ?_⟩, ?_⟩
        · intro zero
          exact nonzero (congrArg some zero)
        · intro byte member
          exact canonical.digits byte (List.mem_cons_of_mem _ member)

theorem toInt32_natCast {count : Nat} (small : count < 2 ^ 31) : toInt32 count = count :=
  Int.bmod_eq_of_le (by omega) (by omega)

theorem toInt32_toInt32 (number : Int) : toInt32 (toInt32 number) = toInt32 number := Int.bmod_bmod

theorem toInt32_bounds (number : Int) : -2 ^ 31 ≤ toInt32 number ∧ toInt32 number < 2 ^ 31 := by
  have least := Int.le_bmod (x := number) (m := 2 ^ 32) (by decide)
  have most := Int.bmod_lt (x := number) (m := 2 ^ 32) (by decide)
  unfold toInt32
  omega

/-- `strtol` reads a digit string up to the first other byte. -/
theorem strtol_digits {text rest : Bytes} (nonempty : text ≠ [])
    (digits : ∀ byte ∈ text, isDigit byte = true) (stops : rest.takeWhile isDigit = []) :
    strtol (text ++ rest) = saturate64 (value text) := by
  obtain ⟨first, others, rfl⟩ := List.exists_cons_of_ne_nil nonempty
  have firstDigit := digits first (List.mem_cons_self ..)
  have bounds := (isDigit_iff first).mp firstDigit
  have notSpace : isSpace first = false := by
    rw [isSpace, Bool.or_eq_false_iff, beq_eq_false_iff_ne, Bool.and_eq_false_iff,
      decide_eq_false_iff_not, decide_eq_false_iff_not, UInt8.le_iff_toNat_le,
      UInt8.le_iff_toNat_le, Ne, ← UInt8.toNat_inj]
    exact ⟨fun same => absurd bounds.1 (by rw [same]; decide), Or.inr (fun low =>
      absurd bounds.1 (Nat.not_le.mpr (Nat.lt_of_le_of_lt low (by decide))))⟩
  have run : (first :: others ++ rest).takeWhile isDigit = first :: others := by
    rw [List.takeWhile_append_of_pos digits, stops, List.append_nil]
  rw [strtol, List.cons_append, List.dropWhile_cons_of_neg (by simp [notSpace])]
  split
  · next head _ eq =>
      have same : first = 45 := (List.cons.inj eq).1
      rw [same] at firstDigit
      cases firstDigit
  · next head _ eq =>
      have same : first = 43 := (List.cons.inj eq).1
      rw [same] at firstDigit
      cases firstDigit
  · rw [← List.cons_append, run]

/-- `atoi` reads a digit string up to the first other byte. -/
theorem atoi_digits {text : Bytes} {stop : UInt8} (rest : Bytes) (nonempty : text ≠ [])
    (digits : ∀ byte ∈ text, isDigit byte = true) (small : value text < 2 ^ 31)
    (stops : isDigit stop = false) :
    atoi (text ++ stop :: rest) = value text := by
  have clamped : saturate64 (value text) = value text := by
    unfold saturate64
    omega
  rw [atoi, strtol_digits nonempty digits (List.takeWhile_cons_of_neg (by simp [stops])), clamped]
  exact toInt32_natCast small

/-- `atoi` of a digit string of any length: `long` is narrowed to `int`. -/
theorem atoi_text {text : Bytes} (nonempty : text ≠ [])
    (digits : ∀ byte ∈ text, isDigit byte = true) :
    atoi text = toInt32 (min (value text) (2 ^ 63 - 1)) := by
  have read := @strtol_digits text [] nonempty digits rfl
  rw [List.append_nil] at read
  rw [atoi, read]
  congr 1
  unfold saturate64
  omega

theorem cString_of_no_zero {arg : Bytes} (absent : (0 : UInt8) ∉ arg) : cString arg = arg := by
  refine List.takeWhile_eq_self_iff.mpr ?_
  intro byte member
  rw [bne_iff_ne]
  intro zero
  rw [zero] at member
  exact absent member

/-- The first zero and what comes before and after it. -/
theorem cString_split {arg : Bytes} (present : (0 : UInt8) ∈ arg) :
    ∃ rest, arg = cString arg ++ 0 :: rest := by
  induction arg with
  | nil => cases present
  | cons byte rest ih =>
      unfold cString
      by_cases zero : byte = 0
      · subst zero
        rw [List.takeWhile_cons_of_neg (by decide)]
        exact ⟨rest, rfl⟩
      · obtain ⟨later, same⟩ :=
          ih ((List.mem_cons.mp present).resolve_left fun same => zero same.symm)
        rw [List.takeWhile_cons_of_pos (by rw [bne_iff_ne]; exact zero)]
        exact ⟨later, congrArg (byte :: ·) same⟩

/-- Cutting at a zero loses bytes. -/
theorem length_cString_lt {arg : Bytes} (present : (0 : UInt8) ∈ arg) :
    (cString arg).length < arg.length := by
  obtain ⟨rest, same⟩ := cString_split present
  have lengths := congrArg List.length same
  rw [List.length_append, List.length_cons] at lengths
  omega

/-- Only strings without a zero are copied whole. -/
theorem cString_eq_iff (arg : Bytes) : cString arg = arg ↔ 0 ∉ arg := by
  constructor
  · intro same present
    have shorter := length_cString_lt present
    rw [same] at shorter
    exact Nat.lt_irrefl _ shorter
  · exact cString_of_no_zero

theorem map_cString_eq_iff (args : List Bytes) : args.map cString = args ↔
    ∀ arg ∈ args, 0 ∉ arg := by
  induction args with
  | nil => simp
  | cons arg rest ih =>
      rw [List.map_cons, List.cons.injEq, cString_eq_iff, ih, List.forall_mem_cons]

theorem length_cString_le (arg : Bytes) : (cString arg).length ≤ arg.length :=
  (List.takeWhile_sublist _).length_le

end Freekick
