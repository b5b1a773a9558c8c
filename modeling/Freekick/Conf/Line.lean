import Freekick.Base.Util
import Freekick.Lib.Fields

/-!
# Configuration lines: the line reader and tokeniser of `fk_conf.c`

A place in the line buffer is given by the bytes from there to the end of the buffer.
`none` is a read behind the terminating zero byte.
-/

namespace Freekick

open Lib.Decimal Lib.Fields

def fkConfMaxFields : Nat := 5
def fkConfMaxLen : Nat := 1024

/-- `FK_CONF_OK` and `FK_CONF_ERR`. -/
inductive FkConfRt where
  | ok
  | err
  deriving DecidableEq, Repr

/-- `fields` are the string pointers, `none` where they are null. -/
structure FkCfline where
  no : Nat
  cnt : Nat
  buf : Bytes
  err : Bytes
  fields : List (Option Bytes)
  deriving DecidableEq, Repr

def fkCflineCreate : FkCfline where
  no := 0
  cnt := 0
  buf := []
  err := []
  fields := List.replicate fkConfMaxFields none

def fkConfResetLine (line : FkCfline) : FkCfline :=
  { line with no := 0, cnt := 0, buf := [], fields := List.replicate fkConfMaxFields none }

/-- `snprintf(line->err, FK_CONF_MAX_LEN, ...)`. -/
def FkCfline.complain (line : FkCfline) (text : Bytes) : FkCfline :=
  { line with err := text.take (fkConfMaxLen - 1) }

/-- `getline`: the bytes up to the first newline and that, or all that are left, with a zero
byte behind them, and the rest of the file.  At the end of the file there is no line. -/
def getline (file : Bytes) : Option (Bytes × Bytes) :=
  if file.isEmpty then none
  else
    match file.dropWhile (· != 10) with
    | [] => some (file ++ [0], [])
    | newline :: rest => some (file.takeWhile (· != 10) ++ [newline, 0], rest)

/-! ## `fk_conf_parse_line` -/

def isBlank (byte : UInt8) : Bool := byte == 32 || byte == 9

def endsToken (byte : UInt8) : Bool := byte == 32 || byte == 9 || byte == 10 || byte == 35

/-- The first place that is not blank. -/
def skipBlanks : Bytes → Option Bytes
  | [] => none
  | byte :: rest => if isBlank byte then skipBlanks rest else some (byte :: rest)

/-- The token at a place and the place behind it. -/
def readToken : Bytes → Option (Bytes × Bytes)
  | [] => none
  | byte :: rest =>
      if endsToken byte then some ([], byte :: rest)
      else (readToken rest).map fun read => (byte :: read.1, read.2)

/-- `line->fields[line->cnt] = token` and `line->cnt += 1`. -/
def FkCfline.store (line : FkCfline) (token : Bytes) : FkCfline :=
  { line with fields := line.fields.set line.cnt (some token), cnt := line.cnt + 1 }

def tooManyFields (no : Nat) : Bytes :=
  ascii "the max fields of one line should not be more than " ++ decimal fkConfMaxFields ++
    ascii ", line: " ++ decimal no ++ [10]

/-- The outer loop.  Every round stores a field, so one round more than there are fields is
enough fuel. -/
def tokenLoop : Nat → FkCfline → Bytes → Option (FkConfRt × FkCfline)
  | 0, _, _ => none
  | _ + 1, _, [] => none
  | fuel + 1, line, byte :: rest =>
      if byte = 10 then some (.ok, line)
      else if line.cnt = fkConfMaxFields then some (.err, line.complain (tooManyFields line.no))
      else
        match skipBlanks (byte :: rest) with
        | none | some [] => none
        | some (first :: behind) =>
            if first = 35 ∨ first = 10 then some (.ok, line)
            else
              match readToken (first :: behind) with
              | none => none
              | some (token, left) => tokenLoop fuel (line.store token) left

def fkConfParseLine (line : FkCfline) : Option (FkConfRt × FkCfline) :=
  tokenLoop (fkConfMaxFields + 1) line line.buf

/-! ## Lines -/

/-- A line that `getline` returns: only the last one of a file has no newline, and it is not
empty then. -/
structure ConfLine where
  body : Bytes
  newline : Bool
  clean : ∀ byte ∈ body, byte ≠ 0 ∧ byte ≠ 10
  present : newline = true ∨ body ≠ []

namespace ConfLine

def ending (line : ConfLine) : Bytes := if line.newline then [10] else []

def text (line : ConfLine) : Bytes := line.body ++ line.ending

def buf (line : ConfLine) : Bytes := line.text ++ [0]

end ConfLine

/-- The longest runs of bytes other than blanks, newlines and `#` before the first `#`. -/
def confWords (text : Bytes) : List Bytes := fields endsToken (text.takeWhile (· != 35))

def ConfLine.words (line : ConfLine) : List Bytes := confWords line.text

/-- The first fields are set and the others are null. -/
structure FkCfline.Filled (line : FkCfline) (words : List Bytes) : Prop where
  cnt : line.cnt = words.length
  fields : line.fields = words.map some ++ List.replicate (fkConfMaxFields - words.length) none

/-- What the tokeniser should make of a line with these words. -/
def Yields (result : Option (FkConfRt × FkCfline)) (words : List Bytes) : Prop :=
  ∃ rt after, result = some (rt, after) ∧ (rt = .err ↔ fkConfMaxFields < words.length) ∧
    (rt = .ok → after.Filled words)

/-- The bytes of a line with `count` words in all are read as they should be.  The limit is tested
before blanks and comments are passed over, and only a newline or a `#` ends a line. -/
def LineFits (newline : Bool) (bytes : Bytes) (count : Nat) : Prop :=
  fkConfMaxFields < count ∨
  (count < fkConfMaxFields ∧ (newline = true ∨ 35 ∈ bytes)) ∨
  (count = fkConfMaxFields ∧ newline = true ∧ 35 ∉ bytes ∧ ∀ byte, bytes.getLast? = some byte →
    isBlank byte = false)

namespace ConfLine

/-- The words of a line are read from its buffer, and no byte behind it. -/
def Tokenised (text : ConfLine) (line : FkCfline) : Prop :=
  Yields (fkConfParseLine { fkConfResetLine line with no := line.no, buf := text.buf }) text.words

def Fits (line : ConfLine) : Prop := LineFits line.newline line.body line.words.length

end ConfLine

/-! ## What the loops do -/

theorem isBlank_iff (byte : UInt8) : isBlank byte = true ↔ byte = 32 ∨ byte = 9 := by
  rw [isBlank, Bool.or_eq_true, beq_iff_eq, beq_iff_eq]

theorem endsToken_iff (byte : UInt8) : endsToken byte = true ↔ isBlank byte = true ∨ byte = 10 ∨
    byte = 35 := by
  rw [endsToken, Bool.or_eq_true, Bool.or_eq_true, beq_iff_eq, beq_iff_eq, isBlank, or_assoc]

theorem endsToken_eq_false_iff (byte : UInt8) :
    endsToken byte = false ↔ isBlank byte = false ∧ byte ≠ 10 ∧ byte ≠ 35 := by
  rw [← Bool.not_eq_true, endsToken_iff, not_or, not_or, Bool.not_eq_true]

theorem not_comment_of_blank {blanks : Bytes} (blank : ∀ byte ∈ blanks, isBlank byte = true) :
    35 ∉ blanks :=
  fun member => absurd (blank 35 member) (by decide)

theorem skipBlanks_blanks {blanks rest : Bytes} (all : ∀ byte ∈ blanks, isBlank byte = true) :
    skipBlanks (blanks ++ rest) = skipBlanks rest := by
  induction blanks with
  | nil => rfl
  | cons byte blanks ih =>
      obtain ⟨blank, others⟩ := List.forall_mem_cons.mp all
      rw [List.cons_append, skipBlanks, if_pos blank, ih others]

theorem skipBlanks_stop {byte : UInt8} (rest : Bytes) (stop : isBlank byte = false) :
    skipBlanks (byte :: rest) = some (byte :: rest) := by
  rw [skipBlanks, if_neg (Bool.not_eq_true _ ▸ stop)]

theorem readToken_word {word : Bytes} {stop : UInt8} (rest : Bytes)
    (plain : ∀ byte ∈ word, endsToken byte = false)
    (ends : endsToken stop = true) : readToken (word ++ stop :: rest) = some
    (word, stop :: rest) := by
  induction word with
  | nil => rw [List.nil_append, readToken, if_pos ends]
  | cons byte word ih =>
      obtain ⟨here, others⟩ := List.forall_mem_cons.mp plain
      rw [List.cons_append, readToken, if_neg (Bool.not_eq_true _ ▸ here), ih others]
      rfl

/-- A token that nothing ends is read on behind the buffer. -/
theorem readToken_outside {word : Bytes} (plain : ∀ byte ∈ word, endsToken byte = false) :
    readToken word = none := by
  induction word with
  | nil => rfl
  | cons byte word ih =>
      obtain ⟨here, others⟩ := List.forall_mem_cons.mp plain
      rw [readToken, if_neg (Bool.not_eq_true _ ▸ here), ih others]
      rfl

/-! ## The words of a text -/

theorem confWords_blanks {blanks : Bytes} (all : ∀ byte ∈ blanks, isBlank byte = true)
    (rest : Bytes) :
    confWords (blanks ++ rest) = confWords rest := by
  induction blanks with
  | nil => rfl
  | cons byte blanks ih =>
      obtain ⟨blank, others⟩ := List.forall_mem_cons.mp all
      have noComment : (byte != 35) = true := by
        rcases (isBlank_iff byte).mp blank with rfl | rfl <;> rfl
      rw [List.cons_append, confWords, List.takeWhile_cons, if_pos noComment,
        fields_cons_sep ((endsToken_iff byte).mpr (.inl blank))]
      exact ih others

theorem confWords_comment (rest : Bytes) : confWords (35 :: rest) = [] := by
  rw [confWords, List.takeWhile_cons_of_neg (by decide), fields_nil]

theorem confWords_word {word rest : Bytes} (nonempty : word ≠ [])
    (plain : ∀ byte ∈ word, endsToken byte = false)
    (stops : ∀ byte, rest.head? = some byte → endsToken byte = true) :
    confWords (word ++ rest) = word :: confWords rest := by
  have noComment : ∀ byte ∈ word, (byte != 35) = true := by
    intro byte member
    have other := plain byte member
    rw [bne_iff_ne]
    rintro rfl
    cases other
  rw [confWords, List.takeWhile_append_of_pos noComment, fields_word nonempty plain, confWords]
  intro byte first
  cases rest with
  | nil => cases first
  | cons head rest =>
      rw [List.takeWhile_cons] at first
      split at first
      · exact stops byte first
      · cases first

theorem confWords_newline (text : Bytes) : confWords (text ++ [10]) = confWords text := by
  by_cases comment : 35 ∈ text
  · rw [confWords, confWords, List.takeWhile_append, if_neg]
    intro whole
    have all := List.takeWhile_eq_self_iff.mp
      (List.Sublist.eq_of_length (List.takeWhile_sublist _) whole) 35 comment
    cases all
  · have all : ∀ byte ∈ text, (byte != 35) = true := by
      intro byte member
      rw [bne_iff_ne]
      rintro rfl
      exact comment member
    rw [confWords, confWords, List.takeWhile_append_of_pos all, List.takeWhile_eq_self_iff.mpr all]
    exact fields_append_sep rfl text

/-- A text without words and comments is blank. -/
theorem blank_of_confWords {text : Bytes} (none : confWords text = []) (comment : 35 ∉ text)
    (clean : 10 ∉ text) :
    ∀ byte ∈ text, isBlank byte = true := by
  intro byte member
  have all : ∀ byte ∈ text, (byte != 35) = true := by
    intro byte member
    rw [bne_iff_ne]
    rintro rfl
    exact comment member
  rw [confWords, List.takeWhile_eq_self_iff.mpr all] at none
  rcases (endsToken_iff byte).mp (all_of_fields_eq_nil none byte member) with blank | rfl | rfl
  · exact blank
  · exact (clean member).elim
  · exact (comment member).elim

/-! ## The tokeniser -/

theorem FkCfline.Filled.store {line : FkCfline} {words : List Bytes} (filled : line.Filled words)
    (token : Bytes) (room : words.length < fkConfMaxFields) :
    (line.store token).Filled (words ++ [token]) where
  cnt := by
    rw [List.length_append]
    exact congrArg (· + 1) filled.cnt
  fields := by
    change line.fields.set line.cnt (some token) = _
    obtain ⟨left, same⟩ : ∃ left, fkConfMaxFields - words.length = left + 1 :=
      ⟨fkConfMaxFields - words.length - 1, by omega⟩
    have later : fkConfMaxFields - (words ++ [token]).length = left := by
      rw [List.length_append, List.length_singleton]
      omega
    rw [filled.fields, filled.cnt, same, later, List.replicate_succ,
      List.set_append_right _ _ (by rw [List.length_map]),
      List.length_map, Nat.sub_self, List.set_cons_zero, List.map_append, List.append_assoc]
    rfl

theorem yields_ok {line : FkCfline} {words : List Bytes} (filled : line.Filled words)
    (few : words.length ≤ fkConfMaxFields) : Yields (some (.ok, line)) words := by
  refine ⟨.ok, line, rfl, ⟨fun err => (nomatch err), fun more => ?_⟩, fun _ => filled⟩
  omega

theorem yields_err_iff (line : FkCfline) (words : List Bytes) :
    Yields (some (.err, line)) words ↔ fkConfMaxFields < words.length := by
  constructor
  · rintro ⟨rt, after, same, iff, _⟩
    cases same
    exact iff.mp rfl
  · intro more
    exact ⟨.err, line, rfl, ⟨fun _ => more, fun _ => rfl⟩, fun ok => nomatch ok⟩

theorem not_yields_none (words : List Bytes) : ¬ Yields none words := by
  rintro ⟨rt, after, same, _⟩
  cases same

/-- What stands before the last byte of a word does not matter, as long as there is no comment. -/
theorem lineFits_append {newline : Bool} {front : Bytes} {last : UInt8} (rest : Bytes) (count : Nat)
    (noComment : 35 ∉ front ++ [last]) (plain : isBlank last = false) :
    LineFits newline (front ++ [last] ++ rest) count ↔ LineFits newline rest count := by
  have comment : 35 ∈ front ++ [last] ++ rest ↔ 35 ∈ rest := by
    rw [List.mem_append]
    exact ⟨fun either => either.resolve_left noComment, .inr⟩
  have ends : (∀ byte, (front ++ [last] ++ rest).getLast? = some byte → isBlank byte = false) ↔
      ∀ byte, rest.getLast? = some byte → isBlank byte = false := by
    rcases List.eq_nil_or_concat' rest with rfl | ⟨before, byte, rfl⟩
    · rw [List.append_nil, List.getLast?_concat]
      refine ⟨fun _ byte none => (nomatch none), fun _ byte same => ?_⟩
      cases same
      exact plain
    · rw [← List.append_assoc, List.getLast?_concat, List.getLast?_concat]
  unfold LineFits
  rw [comment, ends]

/-- A round that does not meet the limit. -/
theorem tokenLoop_round {line : FkCfline} {blanks : Bytes} {byte : UInt8} (fuel : Nat)
    (behind : Bytes) (all : ∀ byte ∈ blanks, isBlank byte = true) (stop : isBlank byte = false)
    (room : line.cnt ≠ fkConfMaxFields) :
    tokenLoop (fuel + 1) line (blanks ++ byte :: behind) =
      if byte = 35 ∨ byte = 10 then some (.ok, line)
      else (readToken (byte :: behind)).bind fun read =>
        tokenLoop fuel (line.store read.1) read.2 := by
  have skipped : skipBlanks (blanks ++ byte :: behind) = some (byte :: behind) :=
    (skipBlanks_blanks all).trans (skipBlanks_stop behind stop)
  obtain ⟨first, rest, same⟩ :=
    List.exists_cons_of_ne_nil
      (List.append_ne_nil_of_right_ne_nil blanks (List.cons_ne_nil byte behind))
  rw [same] at skipped ⊢
  rw [tokenLoop, if_neg room]
  by_cases ended : first = 10
  · have here : byte = 10 := by
      cases blanks with
      | nil => exact (List.cons.inj same).1.trans ended
      | cons blank blanks =>
          have isFirst := (List.cons.inj same).1
          have blank := all blank (List.mem_cons_self ..)
          rw [isFirst, ended] at blank
          cases blank
    rw [if_pos ended, if_pos (.inr here)]
  · rw [if_neg ended, skipped]
    dsimp only
    split
    · rfl
    · cases readToken (byte :: behind) with
      | none => rfl
      | some read => rfl

/-- Nothing but blanks is left, or blanks and a byte that is no blank. -/
theorem blanks_split (bytes : Bytes) :
    ∃ blanks left, bytes = blanks ++ left ∧
    (∀ byte ∈ blanks, isBlank byte = true) ∧ ∀ byte, left.head? = some byte →
    isBlank byte = false := by
  refine ⟨bytes.takeWhile isBlank, bytes.dropWhile isBlank,
    List.takeWhile_append_dropWhile.symm, ?_, ?_⟩
  · exact fun byte member => List.mem_takeWhile_imp member
  · intro byte first
    have stopped := List.head?_dropWhile_not isBlank bytes
    rw [first] at stopped
    exact stopped

/-- The word at a place that is neither blank nor a comment. -/
theorem word_split {byte : UInt8} (behind : Bytes) (starts : endsToken byte = false) :
    ∃ word left, byte :: behind = word ++ left ∧ word ≠ [] ∧
      (∀ byte ∈ word, endsToken byte = false) ∧ ∀ byte, left.head? = some byte →
      endsToken byte = true := by
  refine ⟨(byte :: behind).takeWhile (!endsToken ·), (byte :: behind).dropWhile (!endsToken ·),
    List.takeWhile_append_dropWhile.symm, ?_, ?_, ?_⟩
  · rw [List.takeWhile_cons, starts]
    exact List.cons_ne_nil _ _
  · intro other member
    have taken := List.mem_takeWhile_imp member
    rwa [Bool.not_eq_true'] at taken
  · intro other first
    have stopped := List.head?_dropWhile_not (!endsToken ·) (byte :: behind)
    rw [first] at stopped
    exact (Bool.not_eq_false' ..).mp stopped

/-- All fields are in use: only the newline may follow. -/
theorem tokenLoop_full {newline : Bool} {line : FkCfline} {words : List Bytes} {bytes : Bytes}
    (fuel : Nat) (filled : line.Filled words) (full : words.length = fkConfMaxFields)
    (clean : ∀ byte ∈ bytes, byte ≠ 0 ∧ byte ≠ 10) :
    Yields (tokenLoop (fuel + 1) line (bytes ++ ((if newline then [10] else []) ++ [0])))
      (words ++ confWords bytes) ↔ LineFits newline bytes (words ++ confWords bytes).length := by
  have refused : line.cnt = fkConfMaxFields := filled.cnt.trans full
  cases bytes with
  | nil =>
      have nothing : confWords [] = [] := fields_nil
      rw [nothing, List.append_nil, List.nil_append]
      cases newline with
      | true =>
          refine iff_of_true (yields_ok filled (by omega)) (.inr (.inr ⟨full, rfl, by simp, ?_⟩))
          exact fun byte none => (nomatch none)
      | false =>
          change Yields (if (0 : UInt8) = 10 then _ else _) words ↔ _
          rw [if_neg (by decide), if_pos refused, yields_err_iff]
          refine iff_of_false (by omega) ?_
          rintro (more | ⟨fewer, _⟩ | ⟨_, newline, _⟩)
          · omega
          · omega
          · cases newline
  | cons byte rest =>
      have notNewline := (clean byte (List.mem_cons_self ..)).2
      rw [List.cons_append, tokenLoop, if_neg notNewline, if_pos refused, yields_err_iff]
      refine ⟨.inl, ?_⟩
      rintro (more | ⟨fewer, _⟩ | ⟨same, _, noComment, ends⟩)
      · exact more
      · rw [List.length_append] at fewer
        omega
      · have none : confWords (byte :: rest) = [] := by
          rw [List.length_append] at same
          exact List.eq_nil_of_length_eq_zero (by omega)
        have blank := blank_of_confWords none noComment fun member => (clean 10 member).2 rfl
        have last := List.getLast?_eq_some_getLast (List.cons_ne_nil byte rest)
        have plain := ends _ last
        rw [blank _ (List.getLast_mem _)] at plain
        cases plain

/-- Nothing but blanks is left. -/
theorem tokenLoop_blank {newline : Bool} {line : FkCfline} {words : List Bytes} {blanks : Bytes}
    (fuel : Nat) (filled : line.Filled words) (room : words.length < fkConfMaxFields)
    (blank : ∀ byte ∈ blanks, isBlank byte = true) :
    Yields (tokenLoop (fuel + 1) line (blanks ++ ((if newline then [10] else []) ++ [0]))) words ↔
      LineFits newline blanks words.length := by
  have free : line.cnt ≠ fkConfMaxFields := by
    rw [filled.cnt]
    exact Nat.ne_of_lt room
  cases newline with
  | true =>
      have round := @tokenLoop_round line blanks 10 fuel [0] blank rfl free
      rw [if_pos (.inr rfl)] at round
      change Yields (tokenLoop (fuel + 1) line (blanks ++ [10, 0])) words ↔ _
      rw [round]
      exact iff_of_true (yields_ok filled (Nat.le_of_lt room)) (.inr (.inl ⟨room, .inl rfl⟩))
  | false =>
      have round := @tokenLoop_round line blanks 0 fuel [] blank rfl free
      rw [if_neg (by decide)] at round
      change Yields (tokenLoop (fuel + 1) line (blanks ++ [0])) words ↔ _
      rw [round, readToken_outside (by simp; rfl)]
      refine iff_of_false (not_yields_none words) ?_
      rintro (more | ⟨_, newline | comment⟩ | ⟨same, _⟩)
      · omega
      · cases newline
      · exact not_comment_of_blank blank comment
      · omega

/-- A word at the end of the file is read on behind the buffer. -/
theorem readToken_last {word : Bytes} (letters : ∀ byte ∈ word, endsToken byte = false) :
    readToken (word ++ [0]) = none := by
  refine readToken_outside fun byte member => ?_
  rcases List.mem_append.mp member with inWord | inEnd
  · exact letters byte inWord
  · rw [List.mem_singleton.mp inEnd]
    rfl

/-- A last word without newline does not fit. -/
theorem not_lineFits_last {words : List Bytes} {word bytes : Bytes}
    (room : words.length < fkConfMaxFields) (noComment : 35 ∉ bytes) :
    ¬ LineFits false bytes (words ++ [word]).length := by
  rw [List.length_append, List.length_singleton]
  rintro (more | ⟨_, newline | comment⟩ | ⟨_, newline, _⟩)
  · omega
  · cases newline
  · exact noComment comment
  · cases newline

/-- What stands behind a word, unless the file ends there. -/
theorem exists_stop {newline : Bool} {rest : Bytes}
    (ends : ∀ byte, rest.head? = some byte → endsToken byte = true)
    (more : ¬ (rest = [] ∧ newline = false)) :
    ∃ stop tail, rest ++ ((if newline then [10] else []) ++ [0]) = stop :: tail ∧
      endsToken stop = true := by
  cases rest with
  | nil =>
      cases newline with
      | true => exact ⟨10, [0], rfl, rfl⟩
      | false => exact (more ⟨rfl, rfl⟩).elim
  | cons stop rest => exact ⟨stop, _, rfl, ends stop rfl⟩

/-- The bytes that are left of a line are read as they should be exactly when they fit. -/
theorem tokenLoop_yields_iff {newline : Bool} {fuel : Nat} {line : FkCfline} {words : List Bytes}
    {bytes : Bytes} (filled : line.Filled words) (few : words.length ≤ fkConfMaxFields)
    (enough : fuel + words.length = fkConfMaxFields + 1)
    (clean : ∀ byte ∈ bytes, byte ≠ 0 ∧ byte ≠ 10) :
    Yields (tokenLoop fuel line (bytes ++ ((if newline then [10] else []) ++ [0])))
      (words ++ confWords bytes) ↔ LineFits newline bytes (words ++ confWords bytes).length := by
  induction fuel generalizing line words bytes with
  | zero => omega
  | succ fuel ih =>
      by_cases full : words.length = fkConfMaxFields
      · exact tokenLoop_full fuel filled full clean
      · have room : words.length < fkConfMaxFields := Nat.lt_of_le_of_ne few full
        have free : line.cnt ≠ fkConfMaxFields := by
          rw [filled.cnt]
          exact full
        obtain ⟨blanks, left, rfl, blank, stop⟩ := blanks_split bytes
        have noComment := not_comment_of_blank blank
        rw [confWords_blanks blank]
        cases left with
        | nil =>
            have nothing : confWords [] = [] := fields_nil
            rw [nothing, List.append_nil, List.append_nil]
            exact tokenLoop_blank fuel filled room blank
        | cons byte behind =>
            have plain := stop byte rfl
            have notNewline : byte ≠ 10 :=
              (clean byte (List.mem_append_right _ (List.mem_cons_self ..))).2
            rw [List.append_assoc, List.cons_append, tokenLoop_round fuel _ blank plain free]
            by_cases comment : byte = 35
            · subst comment
              rw [if_pos (.inl rfl), confWords_comment, List.append_nil]
              refine iff_of_true (yields_ok filled few) (.inr (.inl ⟨room, .inr ?_⟩))
              exact List.mem_append_right _ (List.mem_cons_self ..)
            · obtain ⟨word, rest, whole, nonempty, letters, ends⟩ :=
                word_split behind ((endsToken_eq_false_iff byte).mpr ⟨plain, notNewline, comment⟩)
              have wordComment : 35 ∉ blanks ++ word := by
                rw [List.mem_append, not_or]
                exact ⟨noComment, fun member => nomatch letters 35 member⟩
              rw [if_neg (not_or.mpr ⟨comment, notNewline⟩), ← List.cons_append, whole,
                confWords_word nonempty letters ends, List.append_assoc]
              by_cases last : rest = [] ∧ newline = false
              · obtain ⟨rfl, rfl⟩ := last
                have nothing : confWords [] = [] := fields_nil
                change Yields ((readToken (word ++ [0])).bind _) _ ↔ _
                rw [readToken_last letters, Option.bind_none, List.append_nil, nothing]
                exact iff_of_false (not_yields_none _) (not_lineFits_last room wordComment)
              · obtain ⟨stop, tail, next, endsHere⟩ := exists_stop ends last
                rw [next, readToken_word tail letters endsHere, Option.bind_some, ← next,
                  ← List.append_assoc blanks, List.append_cons words word]
                have later := @ih _ _ rest (filled.store word room)
                  (by rw [List.length_append, List.length_singleton]; omega)
                  (by rw [List.length_append, List.length_singleton]; omega)
                  fun other member => clean other (by
                    rw [whole]
                    exact List.mem_append_right _ (List.mem_append_right _ member))
                obtain ⟨front, last, rfl⟩ := (List.eq_nil_or_concat' word).resolve_left nonempty
                have isLast := letters last (List.mem_append_right _ (List.mem_singleton_self _))
                rw [later, ← List.append_assoc blanks, lineFits_append]
                · rwa [List.append_assoc]
                · exact ((endsToken_eq_false_iff last).mp isLast).1

theorem fkConfResetLine_filled (line : FkCfline) (no : Nat) (buf : Bytes) :
    ({ fkConfResetLine line with no := no, buf := buf } : FkCfline).Filled [] := ⟨rfl, rfl⟩

theorem ConfLine.words_eq (line : ConfLine) : line.words = confWords line.body := by
  unfold words text ending
  split
  · exact confWords_newline line.body
  · rw [List.append_nil]

/-- `getline` returns lines. -/
theorem getline_eq_some_iff {file buf rest : Bytes} (clean : 0 ∉ file) :
    getline file = some (buf, rest) ↔
      ∃ line : ConfLine, buf = line.buf ∧ file = line.text ++ rest ∧
        (line.newline = false → rest = []) := by
  constructor
  · intro got
    have front : ∀ byte ∈ file.takeWhile (· != 10), byte ≠ 0 ∧ byte ≠ 10 := by
      intro byte member
      have other := List.mem_takeWhile_imp member
      rw [bne_iff_ne] at other
      refine ⟨?_, other⟩
      rintro rfl
      exact clean ((List.takeWhile_sublist _).subset member)
    have whole : file = file.takeWhile (· != 10) ++ file.dropWhile (· != 10) :=
      List.takeWhile_append_dropWhile.symm
    rw [getline] at got
    split at got
    · cases got
    · next nonempty =>
        split at got
        · next left =>
            cases got
            rw [left, List.append_nil] at whole
            rw [← whole] at front
            refine ⟨⟨file, false, front, .inr ?_⟩, ?_, ?_, fun _ => rfl⟩
            · rwa [List.isEmpty_iff] at nonempty
            · rw [ConfLine.buf, ConfLine.text, ConfLine.ending, if_neg Bool.false_ne_true,
                List.append_nil]
            · rw [ConfLine.text, ConfLine.ending, if_neg Bool.false_ne_true, List.append_nil,
                List.append_nil]
        · next newline behind left =>
            cases got
            have isNewline : newline = 10 := by
              have stopped := List.head?_dropWhile_not (· != (10 : UInt8)) file
              rw [left] at stopped
              simpa using stopped
            rw [left, isNewline] at whole
            refine ⟨⟨_, true, front, .inl rfl⟩, ?_, ?_, fun same => nomatch same⟩
            · rw [ConfLine.buf, ConfLine.text, ConfLine.ending, if_pos rfl,
                List.append_assoc, isNewline]
              rfl
            · rw [ConfLine.text, ConfLine.ending, if_pos rfl, List.append_assoc]
              exact whole
  · rintro ⟨line, rfl, rfl, atEnd⟩
    have front : ∀ byte ∈ line.body, (byte != 10) = true :=
      fun byte member => bne_iff_ne.mpr (line.clean byte member).2
    unfold getline ConfLine.buf ConfLine.text ConfLine.ending
    cases newline : line.newline with
    | true =>
        rw [if_pos rfl, List.append_assoc, List.dropWhile_append_of_pos front,
          List.takeWhile_append_of_pos front, if_neg (by simp)]
        change some (line.body ++ [] ++ [10, 0], rest) = _
        rw [List.append_nil, List.append_assoc]
        rfl
    | false =>
        have nonempty : line.body ≠ [] :=
          line.present.resolve_left (by rw [newline]; exact Bool.false_ne_true)
        rw [if_neg Bool.false_ne_true, List.append_nil, atEnd newline, List.append_nil,
          List.dropWhile_eq_nil_iff.mpr front, if_neg (by rwa [List.isEmpty_iff])]

/-- A line is read as it should be exactly when it fits. -/
theorem fkConfParseLine_words_iff (text : ConfLine) (line : FkCfline) : text.Tokenised line ↔
    text.Fits := by
  have start := fkConfResetLine_filled line line.no text.buf
  have whole := @tokenLoop_yields_iff text.newline _ _ _ _ start (Nat.zero_le _) rfl text.clean
  unfold ConfLine.Tokenised ConfLine.Fits
  rw [ConfLine.words_eq]
  rw [List.nil_append, ← List.append_assoc] at whole
  exact whole

/-- A last line without newline is read on behind its buffer, and a blank behind the fifth word
is taken for a sixth. -/
theorem fkConfParseLine_reads_on :
    let last : ConfLine := ⟨ascii "dump", false, by simp [ascii], .inr (by decide)⟩
    let five : ConfLine := ⟨ascii "a b c d e ", true, by simp [ascii], .inl rfl⟩
    fkConfParseLine { fkCflineCreate with buf := last.buf } = none ∧
      ¬ last.Tokenised fkCflineCreate ∧ five.words.length = fkConfMaxFields ∧
      ¬ five.Tokenised fkCflineCreate := by
  intro last five
  have outside : fkConfParseLine { fkCflineCreate with buf := last.buf } = none := by decide
  refine ⟨outside, ?_, by decide, ?_⟩
  · intro tokenised
    have read : Yields (fkConfParseLine { fkCflineCreate with buf := last.buf }) last.words :=
      tokenised
    rw [outside] at read
    exact not_yields_none _ read
  · rintro ⟨rt, after, same, refused, _⟩
    have err : (fkConfParseLine { fkCflineCreate with buf := five.buf }).map Prod.fst = some .err :=
      by decide
    have got : fkConfParseLine { fkCflineCreate with buf := five.buf } = some (rt, after) := same
    rw [got, Option.map_some, Option.some.injEq] at err
    exact absurd (refused.mp err) (by decide)

end Freekick
