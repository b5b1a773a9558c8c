import Freekick.Net.Grammar

/-!
# Writing the binary log: `fk_blog_append`

Every argument is printed with `%s` into a buffer of fixed size, and as many bytes
as `snprintf` would have needed are written to the file.
-/

namespace Freekick

open Lib.Decimal

def blogBuflen : Nat := fkArgHighwat + fkArgLenLineHighwat

/-- `snprintf` of `text` into a buffer of `size` bytes, then `write` of as many bytes as it
returned.  The text is cut and ended by a zero when it does not fit, and the bytes
past the buffer are those of `beyond`. -/
def printAndWrite (size : Nat) (beyond : Nat → UInt8) (text : Bytes) : Bytes :=
  if text.length < size then text
  else text.take (size - 1) ++ 0 :: (List.range (text.length - size)).map beyond

def blogWrite (beyond : Nat → UInt8) (text : Bytes) : Bytes := printAndWrite blogBuflen beyond text

/-- The text of one argument; `%s` stops at the first zero. -/
def blogArg (arg : Bytes) : Bytes :=
  dollarByte :: (decimal arg.length ++ carriageReturn :: lineFeed ::
    (cString arg ++ [carriageReturn, lineFeed]))

def blogCnt (argc : Nat) : Bytes := starByte :: (decimal argc ++ [carriageReturn, lineFeed])

def fkBlogAppend (beyond : Nat → UInt8) (args : List Bytes) : Bytes :=
  blogWrite beyond (blogCnt args.length) ++
    (args.map fun arg => blogWrite beyond (blogArg arg)).flatten

/-! ## The bytes written -/

theorem blogBuflen_eq : blogBuflen = 1048585 := by
  unfold blogBuflen fkArgHighwat fkArgLenLineHighwat
  omega

theorem length_printAndWrite {size : Nat} (positive : 0 < size) (beyond : Nat → UInt8)
    (text : Bytes) :
    (printAndWrite size beyond text).length = text.length := by
  unfold printAndWrite
  split
  · rfl
  · simp only [List.length_append, List.length_take, List.length_cons, List.length_map,
      List.length_range]
    omega

theorem length_blogWrite (beyond : Nat → UInt8) (text : Bytes) :
    (blogWrite beyond text).length = text.length := by
  refine length_printAndWrite ?_ beyond text
  rw [blogBuflen_eq]
  decide

theorem length_blogArg (arg : Bytes) :
    (blogArg arg).length = (decimal arg.length).length + (cString arg).length + 5 := by
  simp only [blogArg, List.length_cons, List.length_append, List.length_nil]
  omega

theorem length_encArg (arg : Bytes) :
    (encArg arg).length = (decimal arg.length).length + arg.length + 5 := by
  simp only [encArg, List.length_cons, List.length_append, List.length_nil]
  omega

theorem zero_not_mem_decimal (number : Nat) : (0 : UInt8) ∉ decimal number := by
  intro member
  have digit := decimal_digits number 0 member
  cases digit

theorem zero_not_mem_encArg {arg : Bytes} (absent : (0 : UInt8) ∉ arg) :
    (0 : UInt8) ∉ encArg arg := by
  have noDigit := zero_not_mem_decimal arg.length
  simp only [encArg, List.mem_cons, List.mem_append, not_or]
  exact ⟨by decide, noDigit, by decide, by decide, absent, by decide, by decide, List.not_mem_nil⟩

/-- The arguments that are written as the parser reads them. -/
def FitsBlog (arg : Bytes) : Prop := (0 : UInt8) ∉ arg ∧ arg.length ≤ 1048572

theorem length_decimal_ge {number width : Nat} (large : 10 ^ width ≤ number) :
    width < (decimal number).length := by
  by_contra short
  have below := value_lt (decimal_digits number)
  rw [value_decimal] at below
  have power := Nat.pow_le_pow_right (show 0 < 10 by decide) (Nat.le_of_not_lt short)
  omega

/-- An argument is written as its encoding exactly when it has no zero and fits the buffer. -/
theorem blogWrite_blogArg_iff (beyond : Nat → UInt8) {arg : Bytes}
    (short : arg.length ≤ fkArgHighwat) :
    blogWrite beyond (blogArg arg) = encArg arg ↔ FitsBlog arg := by
  have digits := length_decimal_le (show 0 < 7 by decide) (Nat.lt_of_le_of_lt short (by decide))
  constructor
  · intro same
    have lengths := congrArg List.length same
    rw [length_blogWrite, length_blogArg, length_encArg] at lengths
    have absent : (0 : UInt8) ∉ arg := by
      intro present
      have lost := length_cString_lt present
      omega
    refine ⟨absent, ?_⟩
    by_contra long
    have many := length_decimal_ge (show 10 ^ 6 ≤ arg.length by omega)
    have full : ¬ (blogArg arg).length < blogBuflen := by
      rw [length_blogArg, cString_of_no_zero absent, blogBuflen_eq]
      omega
    rw [blogWrite, printAndWrite, if_neg full] at same
    apply zero_not_mem_encArg absent
    rw [← same]
    exact List.mem_append_right _ (List.mem_cons_self ..)
  · rintro ⟨absent, fits⟩
    have room : (blogArg arg).length < blogBuflen := by
      rw [length_blogArg, cString_of_no_zero absent, blogBuflen_eq]
      omega
    rw [blogWrite, printAndWrite, if_pos room, blogArg, encArg, cString_of_no_zero absent]

theorem blogWrite_blogCnt (beyond : Nat → UInt8) {argc : Nat} (few : argc ≤ fkArgCntHighwat) :
    blogWrite beyond (blogCnt argc) = blogCnt argc := by
  have digits := length_decimal_le (show 0 < 3 by decide) (Nat.lt_of_le_of_lt few (by decide))
  refine if_pos ?_
  rw [blogBuflen_eq, blogCnt]
  simp only [List.length_cons, List.length_append, List.length_nil]
  omega

theorem length_blogWrite_le (beyond : Nat → UInt8) (arg : Bytes) :
    (blogWrite beyond (blogArg arg)).length ≤ (encArg arg).length := by
  have le := length_cString_le arg
  rw [length_blogWrite, length_blogArg, length_encArg]
  omega

/-- Pieces that are nowhere longer can only concatenate to the same bytes if they are equal. -/
theorem flatten_map_eq_iff {write encode : Bytes → Bytes}
    (shorter : ∀ arg, (write arg).length ≤ (encode arg).length) (args : List Bytes) :
    (args.map write).flatten = (args.map encode).flatten ↔
      ∀ arg ∈ args, write arg = encode arg := by
  have total : ∀ args : List Bytes,
      (args.map write).flatten.length ≤ (args.map encode).flatten.length := by
    intro args
    induction args with
    | nil => exact Nat.le_refl _
    | cons arg rest ih =>
        simp only [List.map_cons, List.flatten_cons, List.length_append]
        exact Nat.add_le_add (shorter arg) ih
  induction args with
  | nil => simp
  | cons arg rest ih =>
      rw [List.map_cons, List.map_cons, List.flatten_cons, List.flatten_cons, List.forall_mem_cons]
      constructor
      · intro same
        have lengths := congrArg List.length same
        rw [List.length_append, List.length_append] at lengths
        have first := shorter arg
        have later := total rest
        obtain ⟨firstSame, restSame⟩ := List.append_inj same (by omega)
        exact ⟨firstSame, ih.mp restSame⟩
      · rintro ⟨first, later⟩
        rw [first, ih.mpr later]

theorem fkBlogAppend_eq_enc_iff (beyond : Nat → UInt8) {args : List Bytes}
    (admissible : Admissible args) :
    fkBlogAppend beyond args = enc args ↔ ∀ arg ∈ args, FitsBlog arg := by
  have split : enc args = blogCnt args.length ++ encArgs args := by
    simp [enc, blogCnt]
  rw [fkBlogAppend, blogWrite_blogCnt beyond admissible.cnt, split, List.append_cancel_left_eq,
    encArgs, flatten_map_eq_iff (length_blogWrite_le beyond)]
  constructor
  · intro same arg member
    exact (blogWrite_blogArg_iff beyond (admissible.lens arg member)).mp (same arg member)
  · intro fits arg member
    exact (blogWrite_blogArg_iff beyond (admissible.lens arg member)).mpr (fits arg member)

/-! ## Reading the log back -/

/-- A request is read from bytes with nothing left over exactly when they are its encoding. -/
theorem fkConnParseReq_only_iff {args : List Bytes} (admissible : Admissible args) {conn : FkConnIn}
    (reset : Shows conn .idle) :
    (∃ stored, fkConnParseReq conn = some (.ok, stored) ∧ stored.argSlots = args.map some ∧
      stored.rbuf.payload = []) ↔ conn.rbuf.payload = enc args := by
  constructor
  · rintro ⟨stored, called, slots, unread⟩
    obtain ⟨others, _, _, otherSlots, split⟩ := fkConnParseReq_ok reset called
    have same : others = args :=
      (Option.some_injective _).list_map (otherSlots.symm.trans slots)
    rw [unread, List.append_nil, same] at split
    exact split
  · intro bytes
    rw [← List.append_nil (enc args)] at bytes
    obtain ⟨stored, called, _, slots, unread⟩ := fkConnParseReq_enc reset admissible bytes
    exact ⟨stored, called, slots, unread⟩

/-- What is logged for a request reads back as the request exactly when no argument has
a zero byte or more than 1048572 bytes. -/
theorem fkBlogAppend_parse_iff (beyond : Nat → UInt8) {args : List Bytes}
    (admissible : Admissible args) {conn : FkConnIn} (reset : Shows conn .idle)
    (bytes : conn.rbuf.payload = fkBlogAppend beyond args) :
    (∃ stored, fkConnParseReq conn = some (.ok, stored) ∧ stored.argSlots = args.map some ∧
      stored.rbuf.payload = []) ↔ ∀ arg ∈ args, FitsBlog arg := by
  rw [fkConnParseReq_only_iff admissible reset, bytes]
  exact fkBlogAppend_eq_enc_iff beyond admissible

/-- `DEL key` is read back. -/
theorem fkBlogAppend_parse_del :
    let args : List Bytes := [[68, 69, 76], [107, 101, 121]]
    let conn := (fkConnCreate .fake 16).toFkConnIn.receive (fkBlogAppend (fun _ => 0) args)
    Admissible args ∧ (∀ arg ∈ args, FitsBlog arg) ∧
      ∃ stored, fkConnParseReq conn = some (.ok, stored) ∧ stored.argSlots = args.map some ∧
        stored.rbuf.payload = [] := by
  intro args conn
  have admissible : Admissible args := ⟨by decide, by decide, by decide⟩
  have fits : ∀ arg ∈ args, FitsBlog arg := by
    intro arg member
    rcases List.mem_cons.mp member with rfl | last
    · exact ⟨by decide, by decide⟩
    · rw [List.mem_singleton.mp last]
      exact ⟨by decide, by decide⟩
  refine ⟨admissible, fits, ?_⟩
  exact (fkBlogAppend_parse_iff (fun _ => 0) admissible
    (FkConnIn.receive_shows (fkConnCreate_shows .fake 16) _)
      (FkConnIn.payload_receive _ _)).mpr fits

/-- `SET k` with a value of a letter, a zero and a letter: the log keeps the length three and
only the first letter. -/
theorem fkBlogAppend_loses_zero :
    let args : List Bytes := [[83, 69, 84], [107], [97, 0, 98]]
    let conn := (fkConnCreate .fake 16).toFkConnIn.receive (fkBlogAppend (fun _ => 0) args)
    Admissible args ∧
      ¬ ∃ stored, fkConnParseReq conn = some (.ok, stored) ∧ stored.argSlots = args.map some ∧
        stored.rbuf.payload = [] := by
  intro args conn
  have admissible : Admissible args := ⟨by decide, by decide, by decide⟩
  have bytes : conn.rbuf.payload = fkBlogAppend (fun _ => 0) args := FkConnIn.payload_receive _ _
  refine ⟨admissible, ?_⟩
  rw [fkConnParseReq_only_iff admissible (FkConnIn.receive_shows (fkConnCreate_shows .fake 16) _),
    bytes, fkBlogAppend_eq_enc_iff _ admissible]
  intro fits
  exact (fits [97, 0, 98] (by decide)).1 (by decide)

end Freekick
