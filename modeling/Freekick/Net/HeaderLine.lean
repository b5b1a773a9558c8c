import Freekick.Net.Conn

/-!
# Header lines of a request

The four shapes of the bytes at hand decide what `argLine` answers: a wrong
first byte, a line feed too far away, no line feed yet, or a complete line.  A
complete line is a number exactly when it is canonical decimal text followed by
CRLF, with the number inside the limits of the rule.
-/

namespace Freekick

open Lib.Decimal

/-- What the proofs use of a rule: its digit check accepts canonical text, and all
canonical text of a number that is large enough. -/
structure LineRule.Lawful (rule : LineRule) : Prop where
  highwat_le : rule.highwat ≤ 9
  canonical : ∀ {text}, rule.isSeq text = true → Canonical text
  accepts : ∀ {text}, Canonical text → rule.least ≤ value text → rule.isSeq text = true

theorem lenLine_lawful : lenLine.Lawful where
  highwat_le := by decide
  canonical := fun accepted => (fkUtilIsNonminusSeq_iff _).mp accepted
  accepts := fun canonical _ => (fkUtilIsNonminusSeq_iff _).mpr canonical

theorem cntLine_lawful : cntLine.Lawful where
  highwat_le := by decide
  canonical := fun accepted => ((fkUtilIsPositiveSeq_iff _).mp accepted).1
  accepts := by
    intro text canonical positive
    refine (fkUtilIsPositiveSeq_iff _).mpr ⟨canonical, ?_⟩
    intro zeroHead
    obtain ⟨byte, rfl⟩ := List.length_eq_one_iff.mp (canonical.leading zeroHead)
    have same : byte = zeroByte := Option.some.inj zeroHead
    subst same
    exact absurd positive (by decide)

theorem memchr_none {bytes : Bytes} {byte : UInt8} {count : Nat}
    (absent : byte ∉ bytes.take count) : memchr bytes byte count = none :=
  List.idxOf?_eq_none_iff.mpr absent

theorem memchr_found {line : Bytes} {byte : UInt8} {count : Nat} (rest : Bytes)
    (absent : byte ∉ line) (near : line.length < count) :
    memchr (line ++ byte :: rest) byte count = some line.length := by
  obtain ⟨extra, rfl⟩ : ∃ extra, count = line.length + (extra + 1) :=
    ⟨count - line.length - 1, by omega⟩
  rw [memchr, List.take_length_add_append, List.take_succ_cons]
  induction line with
  | nil => rw [List.nil_append, List.idxOf?_cons, if_pos (beq_self_eq_true byte), List.length_nil]
  | cons head tail ih =>
      rw [List.mem_cons, not_or] at absent
      rw [List.cons_append, List.idxOf?_cons, if_neg (by simpa using Ne.symm absent.1),
        ih absent.2 (by simp only [List.length_cons] at near; omega), Option.map_some,
        List.length_cons]

/-! ## The shapes of the bytes at hand -/

variable {rule : LineRule}

theorem argLine_wrong_mark {payload : Bytes} (wrong : payload.head? ≠ some rule.mark) :
    argLine rule payload = .err := by
  rw [argLine, if_pos wrong]

theorem argLine_too_long {line : Bytes} (long : rule.highwat ≤ line.length)
    (absent : lineFeed ∉ line.take rule.highwat) :
    argLine rule (rule.mark :: line) = .err := by
  have reach : min ((rule.mark :: line).length - 1) rule.highwat = rule.highwat := by
    rw [List.length_cons, Nat.add_sub_cancel, Nat.min_eq_right long]
  rw [argLine, if_neg (by simp)]
  simp only [reach, List.drop_succ_cons, List.drop_zero, memchr_none absent, if_true]

theorem argLine_incomplete {line : Bytes} (short : line.length < rule.highwat)
    (absent : lineFeed ∉ line) : argLine rule (rule.mark :: line) = .again := by
  have reach : min ((rule.mark :: line).length - 1) rule.highwat = line.length := by
    rw [List.length_cons, Nat.add_sub_cancel, Nat.min_eq_left (Nat.le_of_lt short)]
  rw [argLine, if_neg (by simp)]
  simp only [reach, List.drop_succ_cons, List.drop_zero,
    memchr_none (show lineFeed ∉ line.take line.length by rwa [List.take_length]),
    if_neg (Nat.ne_of_lt short)]

/-- A complete line whose text does not end in a carriage return, or is too short. -/
theorem argLine_bad_end {line rest : Bytes} (near : line.length < rule.highwat)
    (absent : lineFeed ∉ line) (bad : ∀ text, line = text ++ [carriageReturn] → text = []) :
    argLine rule (rule.mark :: (line ++ lineFeed :: rest)) = .err := by
  have inside : line.length < min ((rule.mark :: (line ++ lineFeed :: rest)).length - 1)
      rule.highwat := by
    simp only [List.length_cons, List.length_append]
    omega
  rw [argLine, if_neg (by simp)]
  simp only [List.drop_succ_cons, List.drop_zero, memchr_found rest absent inside]
  by_cases ended : (rule.mark :: (line ++ lineFeed :: rest))[line.length]? = some carriageReturn
  · rw [if_neg (not_not_intro ended)]
    by_cases tiny : line.length < 2
    · rw [if_pos tiny]
    · obtain ⟨text, last, rfl⟩ : ∃ text last, line = text ++ [last] := by
        have nonempty : line ≠ [] := by
          intro empty
          rw [empty] at tiny
          exact tiny (by decide)
        exact ⟨line.dropLast, line.getLast nonempty, (List.dropLast_append_getLast nonempty).symm⟩
      rw [List.length_append, List.length_singleton, List.getElem?_cons_succ, List.append_assoc,
        List.getElem?_append_right (Nat.le_refl _), Nat.sub_self] at ended
      have same : last = carriageReturn := Option.some.inj ended
      subst same
      rw [bad text rfl] at tiny
      exact absurd (by decide) tiny
  · rw [if_pos ended]

/-- A complete line with a proper end is judged by its digits and its number. -/
theorem argLine_text {text rest : Bytes} (lawful : rule.Lawful) (nonempty : text ≠ [])
    (near : text.length + 1 < rule.highwat) (absent : lineFeed ∉ text) :
    argLine rule (rule.mark :: (text ++ carriageReturn :: lineFeed :: rest)) =
      if rule.isSeq text = true ∧ rule.least ≤ value text ∧ value text ≤ rule.most then
        .number (value text) (text.length + 3)
      else .err := by
  have regroup : text ++ carriageReturn :: lineFeed :: rest =
      (text ++ [carriageReturn]) ++ lineFeed :: rest := by
    rw [List.append_assoc, List.singleton_append]
  have lineLength : (text ++ [carriageReturn]).length = text.length + 1 := by
    rw [List.length_append, List.length_singleton]
  have lineAbsent : lineFeed ∉ text ++ [carriageReturn] := by
    rw [List.mem_append, not_or]
    exact ⟨absent, by decide⟩
  have inside : (text ++ [carriageReturn]).length <
      min ((rule.mark :: ((text ++ [carriageReturn]) ++ lineFeed :: rest)).length - 1)
        rule.highwat := by
    simp only [List.length_cons, List.length_append, List.length_nil]
    omega
  have found := memchr_found rest lineAbsent inside
  have textPos : 0 < text.length := List.length_pos_iff.mpr nonempty
  have lastByte :
      (rule.mark :: ((text ++ [carriageReturn]) ++ lineFeed :: rest))[text.length + 1]? =
      some carriageReturn := by
    rw [List.getElem?_cons_succ, List.append_assoc, List.getElem?_append_right (Nat.le_refl _),
      Nat.sub_self]
    rfl
  have digitsTaken : (text ++ carriageReturn :: lineFeed :: rest).take text.length = text :=
    List.take_left' rfl
  rw [regroup, argLine, if_neg (by simp)]
  simp only [List.drop_succ_cons, List.drop_zero]
  rw [found]
  simp only [lineLength]
  rw [if_neg (not_not_intro lastByte), if_neg (by omega), Nat.add_sub_cancel, ← regroup,
    digitsTaken]
  by_cases accepted : rule.isSeq text = true
  · have canonical := lawful.canonical accepted
    have highwat := lawful.highwat_le
    have small : value text < 2 ^ 31 :=
      calc value text < 10 ^ text.length := value_lt canonical.digits
        _ ≤ 10 ^ 7 := Nat.pow_le_pow_right (by decide) (by omega)
        _ < 2 ^ 31 := by decide
    rw [if_neg (by simp [accepted]), atoi_digits _ nonempty canonical.digits small (by decide)]
    by_cases bounds : rule.least ≤ value text ∧ value text ≤ rule.most
    · rw [if_neg (by omega), if_pos ⟨accepted, bounds⟩, Int.toNat_natCast]
    · rw [if_pos (by omega), if_neg (fun all => bounds all.2)]
  · rw [if_pos (by simp [accepted]), if_neg (fun all => accepted all.1)]

/-- Every non-empty input has one of the shapes. -/
theorem header_shapes (rule : LineRule) {payload : Bytes} (nonempty : payload ≠ []) :
    payload.head? ≠ some rule.mark ∨
    (∃ line, payload = rule.mark :: line ∧ rule.highwat ≤ line.length ∧
      lineFeed ∉ line.take rule.highwat) ∨
    (∃ line, payload = rule.mark :: line ∧ line.length < rule.highwat ∧ lineFeed ∉ line) ∨
    (∃ line rest, payload = rule.mark :: (line ++ lineFeed :: rest) ∧
      line.length < rule.highwat ∧ lineFeed ∉ line) := by
  obtain ⟨first, line, rfl⟩ := List.exists_cons_of_ne_nil nonempty
  by_cases mark : first = rule.mark
  · subst mark
    right
    by_cases near : lineFeed ∈ line.take rule.highwat
    · right; right
      obtain ⟨front, back, split, absent⟩ := List.eq_append_cons_of_mem near
      have short : front.length < rule.highwat := by
        have total := congrArg List.length split
        rw [List.length_append, List.length_cons, List.length_take] at total
        omega
      have whole := List.take_append_drop rule.highwat line
      rw [split, List.append_assoc, List.cons_append] at whole
      exact ⟨front, back ++ line.drop rule.highwat, by rw [whole], short, absent⟩
    · by_cases long : rule.highwat ≤ line.length
      · left
        exact ⟨line, rfl, long, near⟩
      · right; left
        rw [List.take_of_length_le (Nat.le_of_not_le long)] at near
        exact ⟨line, rfl, Nat.lt_of_not_le long, near⟩
  · left
    intro head
    exact mark (Option.some.inj head)

/-- A complete line either has a proper end and some text, or is an error. -/
theorem line_end (line : Bytes) :
    (∃ text, line = text ++ [carriageReturn] ∧ text ≠ []) ∨
    (∀ text, line = text ++ [carriageReturn] → text = []) := by
  by_cases good : ∃ text, line = text ++ [carriageReturn] ∧ text ≠ []
  · exact Or.inl good
  · right
    intro text split
    by_contra nonempty
    exact good ⟨text, split, nonempty⟩

/-! ## Acceptance -/

/-- A number is read exactly from its canonical text and CRLF, inside the limits. -/
theorem argLine_number_iff (lawful : rule.Lawful) {payload : Bytes} {number used : Nat}
    (nonempty : payload ≠ []) :
    argLine rule payload = .number number used ↔
      ∃ rest, payload = rule.mark :: (decimal number ++ carriageReturn :: lineFeed :: rest) ∧
        (decimal number).length + 1 < rule.highwat ∧ rule.least ≤ number ∧ number ≤ rule.most ∧
        used = (decimal number).length + 3 := by
  constructor
  · intro read
    rcases header_shapes rule nonempty with wrong | ⟨line, rfl, long, absent⟩ |
      ⟨line, rfl, short, absent⟩ | ⟨line, rest, rfl, near, absent⟩
    · rw [argLine_wrong_mark wrong] at read
      cases read
    · rw [argLine_too_long long absent] at read
      cases read
    · rw [argLine_incomplete short absent] at read
      cases read
    · rcases line_end line with ⟨text, rfl, some⟩ | bad
      · rw [List.length_append, List.length_singleton] at near
        rw [List.mem_append, not_or] at absent
        rw [List.append_assoc, List.singleton_append,
          argLine_text lawful some near absent.1] at read
        split at read
        · next all =>
            have canonical := lawful.canonical all.1
            obtain ⟨sameNumber, sameUsed⟩ := Line.number.inj read
            have printed : decimal number = text := by
              rw [← sameNumber]
              exact decimal_value canonical
            refine ⟨rest, ?_, ?_, ?_, ?_, ?_⟩
            · rw [printed, List.append_assoc, List.singleton_append]
            · rwa [printed]
            · rw [← sameNumber]
              exact all.2.1
            · rw [← sameNumber]
              exact all.2.2
            · rw [printed, ← sameUsed]
        · cases read
      · rw [argLine_bad_end near absent bad] at read
        cases read
  · rintro ⟨rest, rfl, near, least, most, rfl⟩
    have canonical := decimal_canonical number
    have absent : lineFeed ∉ decimal number := by
      intro member
      exact absurd (canonical.digits _ member) (by decide)
    rw [argLine_text lawful canonical.nonempty near absent, value_decimal,
      if_pos ⟨lawful.accepts canonical (by rwa [value_decimal]), least, most⟩]

/-! ## Answers are final -/

theorem argLine_number_append (lawful : rule.Lawful) {payload : Bytes} {number used : Nat}
    (nonempty : payload ≠ []) (more : Bytes) (read : argLine rule payload = .number number used) :
    argLine rule (payload ++ more) = .number number used := by
  obtain ⟨rest, rfl, bounds⟩ := (argLine_number_iff lawful nonempty).mp read
  refine (argLine_number_iff lawful (by simp)).mpr ⟨rest ++ more, ?_, bounds⟩
  simp only [List.cons_append, List.append_assoc]

theorem argLine_err_append (lawful : rule.Lawful) {payload : Bytes} (nonempty : payload ≠ [])
    (more : Bytes) (failed : argLine rule payload = .err) :
    argLine rule (payload ++ more) = .err := by
  rcases header_shapes rule nonempty with wrong | ⟨line, rfl, long, absent⟩ |
    ⟨line, rfl, short, absent⟩ | ⟨line, rest, rfl, near, absent⟩
  · apply argLine_wrong_mark
    rwa [List.head?_append_of_ne_nil _ nonempty]
  · rw [List.cons_append]
    apply argLine_too_long
    · rw [List.length_append]
      exact Nat.le_add_right_of_le long
    · rwa [List.take_append_of_le_length long]
  · rw [argLine_incomplete short absent] at failed
    cases failed
  · rw [List.cons_append, List.append_assoc, List.cons_append]
    rcases line_end line with ⟨text, rfl, some⟩ | bad
    · rw [List.length_append, List.length_singleton] at near
      rw [List.mem_append, not_or] at absent
      rw [List.append_assoc, List.singleton_append,
        argLine_text lawful some near absent.1] at failed ⊢
      exact failed
    · exact argLine_bad_end near absent bad

theorem argLine_used_le (lawful : rule.Lawful) {payload : Bytes} {number used : Nat}
    (nonempty : payload ≠ []) (read : argLine rule payload = .number number used) :
    used ≤ payload.length := by
  obtain ⟨rest, rfl, _, _, _, rfl⟩ := (argLine_number_iff lawful nonempty).mp read
  simp only [List.length_cons, List.length_append]
  omega

theorem argLine_used_pos (lawful : rule.Lawful) {payload : Bytes} {number used : Nat}
    (nonempty : payload ≠ []) (read : argLine rule payload = .number number used) : 0 < used := by
  obtain ⟨rest, _, _, _, _, rfl⟩ := (argLine_number_iff lawful nonempty).mp read
  exact Nat.succ_pos _

end Freekick
