import Freekick.Conf.Line

/-!
# Settings: the directives of `fk_conf.c`

A directive works on the line that it stands in and on the global `setting`.  `none` is
an undefined operation: a read behind the line buffer or of a field that is not there.
-/

namespace Freekick

open Lib.Decimal

/-- `fk_conf_t`. -/
structure FkConf where
  port : Nat
  addr : Bytes
  daemon : Nat
  maxConns : Int
  timeout : Int
  logLevel : Nat
  logPath : Bytes
  pidPath : Bytes
  dump : Nat
  dbFile : Bytes
  dir : Bytes
  dbcnt : Nat
  maxWbuf : Nat
  blogOn : Nat
  blogFile : Bytes
  deriving DecidableEq, Repr

def fkLogError : Nat := 0
def fkLogWarn : Nat := 1
def fkLogInfo : Nat := 2
def fkLogDebug : Nat := 3

/-- The defaults.  The path of the binary log is cut to the length of the path of the dump. -/
def fkConfDefault : FkConf where
  port := 6379
  addr := ascii "0.0.0.0"
  daemon := 0
  maxConns := 10240
  timeout := 300
  logLevel := fkLogDebug
  logPath := ascii "/tmp/freekick.log"
  pidPath := ascii "/tmp/freekick.pid"
  dump := 0
  dbFile := ascii "/tmp/freekick.db"
  dir := ascii "/tmp/"
  dbcnt := 1
  maxWbuf := 4096
  blogOn := 0
  blogFile := (ascii "/tmp/freekick.blog").take (ascii "/tmp/freekick.db").length

/-- A directive: its code, the line, in which a message may be left, and the settings. -/
abbrev ConfHandler := FkCfline → FkConf → Option (FkConfRt × FkCfline × FkConf)

/-- `line->fields[1]` as a string. -/
def FkCfline.operand (line : FkCfline) : Option Bytes := (line.fields[1]?).join

def confMessage (text : Bytes) (line : FkCfline) : Bytes :=
  text ++ ascii " line: " ++ decimal line.no ++ [10]

/-! ## Directives -/

def fkStrIsPositive (str : Bytes) : Bool :=
  if str.length < 1 then false else fkUtilIsPositiveSeq str

/-- The common body of the directives with a number: the digits are checked and `atoi` reads
them; what it reads may be refused with the same message. -/
def parseNumber (name : Bytes) (keep : Int → FkConf → Option FkConf) : ConfHandler :=
  fun line conf =>
  match line.operand with
  | none => none
  | some text =>
      let refused := line.complain (confMessage (name ++ ascii " is not a valid number.") line)
      if !fkStrIsPositive text then some (.err, refused, conf)
      else
        match keep (atoi (text ++ [0])) conf with
        | none => some (.err, refused, conf)
        | some kept => some (.ok, line, kept)

/-- The common body of the directives with a path or an address. -/
def parseString (keep : Bytes → FkConf → FkConf) : ConfHandler := fun line conf =>
  match line.operand with
  | none => none
  | some text => some (.ok, line, keep text conf)

/-- The common body of the directives that stand alone. -/
def parseFlag (set : FkConf → FkConf) : ConfHandler := fun line conf => some (.ok, line, set conf)

def fkConfParsePort : ConfHandler := parseNumber (ascii "port") fun port conf =>
  if port ≤ 0 ∨ 65535 < port then none else some { conf with port := (port % 2 ^ 16).toNat }

def fkConfParseMaxconn : ConfHandler := parseNumber (ascii "maxconn") fun number conf =>
  some { conf with maxConns := number }

def fkConfParseDbcnt : ConfHandler := parseNumber (ascii "dbcnt") fun dbcnt conf =>
  some { conf with dbcnt := (dbcnt % 2 ^ 32).toNat }

/-- The message names another directive. -/
def fkConfParseTimeout : ConfHandler := parseNumber (ascii "dbcnt") fun timeout conf =>
  some { conf with timeout := timeout }

def fkConfParseMaxwbuf : ConfHandler := parseNumber (ascii "maxwbuf") fun maxwbuf conf =>
  some { conf with maxWbuf := (maxwbuf % 2 ^ 64).toNat }

def fkConfParseDaemon : ConfHandler := parseFlag fun conf => { conf with daemon := 1 }
def fkConfParseDump : ConfHandler := parseFlag fun conf => { conf with dump := 1 }
def fkConfParseBlogon : ConfHandler := parseFlag fun conf => { conf with blogOn := 1 }

def fkConfParsePidpath : ConfHandler := parseString fun path conf => { conf with pidPath := path }
def fkConfParseLogpath : ConfHandler := parseString fun path conf => { conf with logPath := path }
def fkConfParseDbfile : ConfHandler := parseString fun path conf => { conf with dbFile := path }
def fkConfParseDir : ConfHandler := parseString fun path conf => { conf with dir := path }
def fkConfParseAddr : ConfHandler := parseString fun addr conf => { conf with addr := addr }
def fkConfParseBlogfile : ConfHandler := parseString fun path conf => { conf with blogFile := path }

/-- `strcasecmp(text, literal) == 0`. -/
def sameLetters (text : Bytes) (literal : String) : Bool :=
  fkStr2upper (cString text) == fkStr2upper (ascii literal)

def fkConfParseLoglevel : ConfHandler := fun line conf =>
  match line.operand with
  | none => none
  | some level =>
      if sameLetters level "debug" then some (.ok, line, { conf with logLevel := fkLogDebug })
      else if sameLetters level "info" then some (.ok, line, { conf with logLevel := fkLogInfo })
      else if sameLetters level "warnning" then
        some (.ok, line, { conf with logLevel := fkLogWarn })
      else if sameLetters level "error" then some (.ok, line, { conf with logLevel := fkLogError })
      else
        some (.err, line.complain (ascii "no this log level: " ++ cString level ++
          ascii ", line: " ++ decimal line.no), conf)

/-- `fk_dtv`. -/
structure FkDtv where
  name : String
  fieldCnt : Nat
  handler : ConfHandler

def dtvMap : List FkDtv :=
  [⟨"port", 2, fkConfParsePort⟩, ⟨"daemon", 1, fkConfParseDaemon⟩,
    ⟨"pidpath", 2, fkConfParsePidpath⟩, ⟨"logpath", 2, fkConfParseLogpath⟩,
    ⟨"dump", 1, fkConfParseDump⟩, ⟨"dbfile", 2, fkConfParseDbfile⟩,
    ⟨"dir", 2, fkConfParseDir⟩, ⟨"loglevel", 2, fkConfParseLoglevel⟩,
    ⟨"maxconn", 2, fkConfParseMaxconn⟩, ⟨"dbcnt", 2, fkConfParseDbcnt⟩,
    ⟨"timeout", 2, fkConfParseTimeout⟩, ⟨"addr", 2, fkConfParseAddr⟩,
    ⟨"maxwbuf", 2, fkConfParseMaxwbuf⟩, ⟨"blogfile", 2, fkConfParseBlogfile⟩,
    ⟨"blogon", 1, fkConfParseBlogon⟩]

def fkConfSearch (name : Bytes) : Option FkDtv := dtvMap.find? fun dtv => sameLetters name dtv.name

/-! ## Lines and files -/

def fkConfProcLine : ConfHandler := fun line conf =>
  if line.cnt = 0 then some (.ok, line, conf)
  else
    match (line.fields[0]?).join with
    | none => none
    | some cmd =>
        match fkConfSearch cmd with
        | none =>
            some (.err, line.complain
              (confMessage (ascii "no this cmd: " ++ cString cmd ++ ascii ",") line), conf)
        | some dtv =>
            if dtv.fieldCnt ≠ line.cnt then
              some (.err, line.complain (confMessage (ascii "field cnt wrong.") line), conf)
            else dtv.handler line conf

/-- The body of the loop of `fk_conf_parse_file` for the line in the buffer. -/
def confRound (no : Nat) (buf : Bytes) : ConfHandler := fun line conf =>
  match fkConfParseLine { fkConfResetLine line with no := no, buf := buf } with
  | none => none
  | some (.err, parsed) => some (.err, parsed, conf)
  | some (.ok, parsed) => fkConfProcLine parsed conf

/-- The loop of `fk_conf_parse_file`.  Every line takes a byte of the file at least, so its
length is enough fuel. -/
def fileLoop : Nat → Nat → Bytes → ConfHandler
  | 0, _, _, line, conf => some (.ok, line, conf)
  | fuel + 1, lineNum, file, line, conf =>
      match getline file with
      | none => some (.ok, line, conf)
      | some (buf, rest) =>
          match confRound ((lineNum + 1) % 2 ^ 32) buf line conf with
          | none => none
          | some (.err, after, changed) => some (.err, after, changed)
          | some (.ok, after, changed) => fileLoop fuel ((lineNum + 1) % 2 ^ 32) rest after changed

def fkConfParseFile (file : Bytes) (conf : FkConf) : Option (FkConfRt × FkCfline × FkConf) :=
  fileLoop file.length 0 file fkCflineCreate conf

/-- With no configuration file the defaults stay.  A file that cannot be opened or that is
refused ends the program, which is the inner `none`. -/
def fkConfInit (path : Option (Option Bytes)) : Option (Option FkConf) :=
  match path with
  | none => some (some fkConfDefault)
  | some none => some none
  | some (some file) =>
      match fkConfParseFile file fkConfDefault with
      | none => none
      | some (.err, _, _) => some none
      | some (.ok, _, conf) => some (some conf)

/-! ## Numbers -/

/-- The directives with a number. -/
inductive Numeric where
  | port
  | maxconn
  | dbcnt
  | timeout
  | maxwbuf
  deriving DecidableEq, Repr

namespace Numeric

def parse : Numeric → ConfHandler
  | .port => fkConfParsePort
  | .maxconn => fkConfParseMaxconn
  | .dbcnt => fkConfParseDbcnt
  | .timeout => fkConfParseTimeout
  | .maxwbuf => fkConfParseMaxwbuf

/-- The setting of a directive. -/
def stored (conf : FkConf) : Numeric → Int
  | .port => conf.port
  | .maxconn => conf.maxConns
  | .dbcnt => conf.dbcnt
  | .timeout => conf.timeout
  | .maxwbuf => conf.maxWbuf

/-- A number is refused or stored as it is, and a port is a port. -/
def Exact (kind : Numeric) (number : Nat) (line : FkCfline) (conf : FkConf) : Prop :=
  ∃ rt after changed, kind.parse line conf = some (rt, after, changed) ∧
    (rt = .err ∨ kind.stored changed = number ∧
      (kind = .port → 1 ≤ changed.port ∧ changed.port ≤ 65535))

/-- The numbers that come through `atoi` and the type of the setting, or that are refused. -/
def Fits (number : Nat) : Numeric → Prop
  | .port => number < 2 ^ 31 ∨ 2 ^ 63 ≤ number ∨ number % 2 ^ 32 = 0 ∨ 65535 < number % 2 ^ 32
  | .maxconn | .timeout => number < 2 ^ 31
  | .dbcnt => number < 2 ^ 32
  | .maxwbuf => number < 2 ^ 31 ∨ number = 2 ^ 64 - 1

end Numeric

/-- What `atoi` makes of a digit string. -/
def narrowed (number : Nat) : Int := toInt32 (min number (2 ^ 63 - 1))

theorem fkStrIsPositive_eq (str : Bytes) : fkStrIsPositive str = fkUtilIsPositiveSeq str := by
  cases str <;> rfl

theorem atoi_positive {text : Bytes} (positive : fkStrIsPositive text = true) :
    atoi (text ++ [0]) = narrowed (value text) := by
  have canonical := ((fkUtilIsPositiveSeq_iff text).mp (fkStrIsPositive_eq text ▸ positive)).1
  have read := @strtol_digits text [0] canonical.nonempty canonical.digits rfl
  rw [atoi, read, narrowed]
  congr 1
  unfold saturate64
  omega

/-- The ways a directive with a number can go on an accepted string. -/
theorem parseNumber_eq {line : FkCfline} {text : Bytes} (name : Bytes)
    (keep : Int → FkConf → Option FkConf) (conf : FkConf)
    (here : line.operand = some text) (positive : fkStrIsPositive text = true) :
    parseNumber name keep line conf =
      match keep (narrowed (value text)) conf with
      | none =>
          some (.err, line.complain (confMessage (name ++ ascii " is not a valid number.") line),
            conf)
      | some kept => some (.ok, line, kept) := by
  rw [parseNumber, here]
  dsimp only
  rw [positive, atoi_positive positive]
  rfl

theorem narrowed_cases (number : Nat) :
    (2 ^ 63 ≤ number ∧ narrowed number = -1) ∨
    (number < 2 ^ 63 ∧ number % 2 ^ 32 < 2 ^ 31 ∧ narrowed number = (number % 2 ^ 32 : Nat)) ∨
    (number < 2 ^ 63 ∧ 2 ^ 31 ≤ number % 2 ^ 32 ∧
      narrowed number = (number % 2 ^ 32 : Nat) - 2 ^ 32) := by
  unfold narrowed toInt32
  rw [Int.bmod_def]
  rcases Nat.lt_or_ge number (2 ^ 63) with small | large
  · have least : min (number : Int) (2 ^ 63 - 1) = number := by omega
    rw [least]
    split <;> omega
  · have least : min (number : Int) (2 ^ 63 - 1) = 2 ^ 63 - 1 := by omega
    rw [least]
    exact .inl ⟨large, rfl⟩

theorem narrowed_eq_iff (number : Nat) : narrowed number = number ↔ number < 2 ^ 31 := by
  rcases narrowed_cases number with ⟨large, same⟩ | ⟨small, low, same⟩ |
      ⟨small, high, same⟩ <;> rw [same] <;> omega

namespace Numeric

/-- A directive that refuses no number stores it exactly when the setting holds it. -/
theorem exact_iff_stored (kind : Numeric) (name : Bytes) (put : Int → FkConf → FkConf)
    {text : Bytes} {line : FkCfline} {conf : FkConf}
    (apart : kind ≠ .port) (parses : kind.parse = parseNumber name fun number conf =>
      some (put number conf))
    (here : line.operand = some text) (positive : fkStrIsPositive text = true) :
    kind.Exact (value text) line conf ↔
      kind.stored (put (narrowed (value text)) conf) = value text := by
  unfold Exact
  rw [parses, parseNumber_eq name _ conf here positive]
  dsimp only
  constructor
  · rintro ⟨rt, after, changed, same, err | ⟨stored, _⟩⟩
    · cases same
      cases err
    · cases same
      exact stored
  · intro stored
    exact ⟨.ok, line, _, rfl, .inr ⟨stored, fun port => (apart port).elim⟩⟩

theorem port_exact_iff {text : Bytes} {line : FkCfline} {conf : FkConf}
    (here : line.operand = some text) (positive : fkStrIsPositive text = true) :
    Numeric.port.Exact (value text) line conf ↔ Numeric.port.Fits (value text) := by
  have parsed := parseNumber_eq (ascii "port")
    (fun port conf =>
      if port ≤ 0 ∨ 65535 < port then none
      else some { conf with port := (port % 2 ^ 16).toNat }) conf here positive
  have ways := narrowed_cases (value text)
  unfold Exact Fits
  by_cases refused : narrowed (value text) ≤ 0 ∨ 65535 < narrowed (value text)
  · rw [if_pos refused] at parsed
    refine iff_of_true ⟨.err, _, conf, parsed, .inl rfl⟩ ?_
    omega
  · rw [if_neg refused] at parsed
    constructor
    · rintro ⟨rt, after, changed, same, err | ⟨stored, _⟩⟩
      · cases parsed.symm.trans same
        cases err
      · cases parsed.symm.trans same
        change (((narrowed (value text) % 2 ^ 16).toNat : Nat) : Int) = value text at stored
        omega
    · intro fits
      refine ⟨.ok, line, _, parsed, .inr ⟨?_, fun _ => ?_⟩⟩
      · change (((narrowed (value text) % 2 ^ 16).toNat : Nat) : Int) = value text
        omega
      · change 1 ≤ (narrowed (value text) % 2 ^ 16).toNat ∧
          (narrowed (value text) % 2 ^ 16).toNat ≤ 65535
        omega

end Numeric

theorem Numeric.not_exact {kind : Numeric} {number : Nat} {line : FkCfline} {conf : FkConf}
    {other : Int} (parsed : (kind.parse line conf).map
      (fun result => (result.1, kind.stored result.2.2)) = some (.ok, other))
    (apart : other ≠ number) : ¬ kind.Exact number line conf := by
  rintro ⟨rt, after, changed, same, kept⟩
  rw [same, Option.map_some, Option.some.injEq, Prod.mk.injEq] at parsed
  rcases kept with err | ⟨stored, _⟩
  · cases err.symm.trans parsed.1
  · exact apart (parsed.2.symm.trans stored)

/-- A directive stores the number it is given or refuses it exactly when the number fits. -/
theorem fkConf_number_exact_iff (kind : Numeric) {line : FkCfline} {text : Bytes} (conf : FkConf)
    (here : line.operand = some text) (positive : fkStrIsPositive text = true) :
    kind.Exact (value text) line conf ↔ kind.Fits (value text) := by
  have ways := narrowed_cases (value text)
  cases kind with
  | port => exact Numeric.port_exact_iff here positive
  | maxconn =>
      rw [Numeric.exact_iff_stored .maxconn (ascii "maxconn")
        (fun number conf => { conf with maxConns := number }) (by decide) rfl here positive]
      exact narrowed_eq_iff (value text)
  | timeout =>
      rw [Numeric.exact_iff_stored .timeout (ascii "dbcnt")
        (fun number conf => { conf with timeout := number }) (by decide) rfl here positive]
      exact narrowed_eq_iff (value text)
  | dbcnt =>
      rw [Numeric.exact_iff_stored .dbcnt (ascii "dbcnt")
        (fun number conf => { conf with dbcnt := (number % 2 ^ 32).toNat }) (by decide) rfl here
        positive]
      change (((narrowed (value text) % 2 ^ 32).toNat : Nat) : Int) = value text ↔
        value text < 2 ^ 32
      omega
  | maxwbuf =>
      rw [Numeric.exact_iff_stored .maxwbuf (ascii "maxwbuf")
        (fun number conf => { conf with maxWbuf := (number % 2 ^ 64).toNat }) (by decide) rfl here
        positive]
      change (((narrowed (value text) % 2 ^ 64).toNat : Nat) : Int) = value text ↔
        value text < 2 ^ 31 ∨ value text = 2 ^ 64 - 1
      omega

/-- The line of a directive with one operand. -/
def confOperand (name text : Bytes) : FkCfline :=
  { fkCflineCreate with no := 1, cnt := 2, fields := [some name, some text, none, none, none] }

theorem fkConf_number_exact_port :
    let text := ascii "6379"
    fkStrIsPositive text = true ∧ Numeric.port.Fits (value text) ∧
      Numeric.port.Exact (value text) (confOperand (ascii "port") text) fkConfDefault := by
  intro text
  have fits : Numeric.port.Fits (value text) := .inl (by decide)
  exact ⟨rfl, fits, (fkConf_number_exact_iff .port fkConfDefault rfl rfl).mpr fits⟩

/-- The number 2 ^ 32 + 80 is stored as 80, whatever the directive. -/
theorem fkConf_number_narrowed :
    let text := ascii "4294967376"
    fkStrIsPositive text = true ∧ value text = 2 ^ 32 + 80 ∧
      ∀ kind : Numeric, ¬ kind.Exact (value text) (confOperand (ascii "port") text)
        fkConfDefault := by
  intro text
  refine ⟨rfl, rfl, fun kind => ?_⟩
  have apart : (80 : Int) ≠ (value text : Nat) := by decide
  refine Numeric.not_exact ?_ apart
  cases kind <;> rfl

/-! ## Settings that are read -/

/-- What the types and checks of the settings promise. -/
structure FkConf.Sane (conf : FkConf) : Prop where
  port : 1 ≤ conf.port ∧ conf.port ≤ 65535
  daemon : conf.daemon ≤ 1
  maxConns : -2 ^ 31 ≤ conf.maxConns ∧ conf.maxConns < 2 ^ 31
  timeout : -2 ^ 31 ≤ conf.timeout ∧ conf.timeout < 2 ^ 31
  logLevel : conf.logLevel ≤ fkLogDebug
  dump : conf.dump ≤ 1
  dbcnt : conf.dbcnt < 2 ^ 32
  maxWbuf : conf.maxWbuf < 2 ^ 64
  blogOn : conf.blogOn ≤ 1

theorem fkConfDefault_sane : fkConfDefault.Sane := by
  constructor <;> decide

def KeepsSane (handler : ConfHandler) : Prop :=
  ∀ line conf rt after changed, conf.Sane → handler line conf = some (rt, after, changed) →
    changed.Sane

theorem parseNumber_sane {name : Bytes} {keep : Int → FkConf → Option FkConf}
    (kept : ∀ number conf changed, conf.Sane → -2 ^ 31 ≤ number → number < 2 ^ 31 →
      keep number conf = some changed → changed.Sane) : KeepsSane (parseNumber name keep) := by
  intro line conf rt after changed sane parsed
  unfold parseNumber at parsed
  split at parsed
  · cases parsed
  · next text here =>
      split at parsed
      · cases parsed
        exact sane
      · split at parsed
        · cases parsed
          exact sane
        · next result same =>
            cases parsed
            exact kept _ conf _ sane (toInt32_bounds _).1 (toInt32_bounds _).2 same

theorem parseString_sane {keep : Bytes → FkConf → FkConf}
    (kept : ∀ text conf, conf.Sane → (keep text conf).Sane) :
    KeepsSane (parseString keep) := by
  intro line conf rt after changed sane parsed
  unfold parseString at parsed
  split at parsed
  · cases parsed
  · cases parsed
    exact kept _ conf sane

theorem parseFlag_sane {set : FkConf → FkConf} (kept : ∀ conf, conf.Sane → (set conf).Sane) :
    KeepsSane (parseFlag set) := by
  intro line conf rt after changed sane parsed
  cases parsed
  exact kept conf sane

theorem fkConfParsePort_sane : KeepsSane fkConfParsePort := by
  refine parseNumber_sane fun number conf changed sane _ _ same => ?_
  split at same
  · cases same
  · cases same
    refine { sane with port := ?_ }
    change 1 ≤ (number % 2 ^ 16).toNat ∧ (number % 2 ^ 16).toNat ≤ 65535
    omega

theorem fkConfParseLoglevel_sane : KeepsSane fkConfParseLoglevel := by
  intro line conf rt after changed sane parsed
  have known : ∀ level, level ≤ fkLogDebug → ({ conf with logLevel := level } : FkConf).Sane := by
    intro level low
    exact { sane with logLevel := low }
  unfold fkConfParseLoglevel at parsed
  split at parsed
  · cases parsed
  · repeat' split at parsed
    all_goals cases parsed
    · exact known fkLogDebug (by decide)
    · exact known fkLogInfo (by decide)
    · exact known fkLogWarn (by decide)
    · exact known fkLogError (by decide)
    · exact sane

/-- Every directive of the table. -/
theorem dtvMap_sane : ∀ dtv ∈ dtvMap, KeepsSane dtv.handler := by
  simp only [dtvMap, List.forall_mem_cons]
  refine ⟨fkConfParsePort_sane, ?_, ?_, ?_, ?_, ?_, ?_, fkConfParseLoglevel_sane, ?_, ?_, ?_,
    ?_, ?_, ?_, ?_, fun dtv member => nomatch member⟩
  · exact parseFlag_sane fun conf sane => { sane with daemon := Nat.le_refl 1 }
  · exact parseString_sane fun text conf sane => { sane with }
  · exact parseString_sane fun text conf sane => { sane with }
  · exact parseFlag_sane fun conf sane => { sane with dump := Nat.le_refl 1 }
  · exact parseString_sane fun text conf sane => { sane with }
  · exact parseString_sane fun text conf sane => { sane with }
  · refine parseNumber_sane fun number conf changed sane least most same => ?_
    cases same
    exact { sane with maxConns := ⟨least, most⟩ }
  · refine parseNumber_sane fun number conf changed sane least most same => ?_
    cases same
    refine { sane with dbcnt := ?_ }
    change (number % 2 ^ 32).toNat < 2 ^ 32
    omega
  · refine parseNumber_sane fun number conf changed sane least most same => ?_
    cases same
    exact { sane with timeout := ⟨least, most⟩ }
  · exact parseString_sane fun text conf sane => { sane with }
  · refine parseNumber_sane fun number conf changed sane least most same => ?_
    cases same
    refine { sane with maxWbuf := ?_ }
    change (number % 2 ^ 64).toNat < 2 ^ 64
    omega
  · exact parseString_sane fun text conf sane => { sane with }
  · exact parseFlag_sane fun conf sane => { sane with blogOn := Nat.le_refl 1 }

theorem fkConfProcLine_sane : KeepsSane fkConfProcLine := by
  intro line conf rt after changed sane processed
  unfold fkConfProcLine at processed
  split at processed
  · cases processed
    exact sane
  · split at processed
    · cases processed
    · next cmd here =>
        split at processed
        · cases processed
          exact sane
        · next dtv found =>
            split at processed
            · cases processed
              exact sane
            · exact dtvMap_sane dtv (List.mem_of_find?_eq_some found) line conf rt after changed
                sane processed

theorem confRound_sane (no : Nat) (buf : Bytes) : KeepsSane (confRound no buf) := by
  intro line conf rt after changed sane ran
  unfold confRound at ran
  split at ran
  · cases ran
  · cases ran
    exact sane
  · exact fkConfProcLine_sane _ conf rt after changed sane ran

theorem fileLoop_sane (fuel lineNum : Nat) (file : Bytes) :
    KeepsSane (fileLoop fuel lineNum file) := by
  induction fuel generalizing lineNum file with
  | zero =>
      intro line conf rt after changed sane ran
      cases ran
      exact sane
  | succ fuel ih =>
      intro line conf rt after changed sane ran
      unfold fileLoop at ran
      split at ran
      · cases ran
        exact sane
      · next buf rest got =>
          split at ran
          · cases ran
          · next after' changed' same =>
              cases ran
              exact confRound_sane _ buf line conf _ _ _ sane same
          · next after' changed' same =>
              have kept := confRound_sane _ buf line conf _ _ _ sane same
              exact ih _ rest after' changed' rt after changed kept ran

/-- Whatever the configuration file, the settings that the server starts with are sane. -/
theorem fkConfInit_sane {path : Option (Option Bytes)} {conf : FkConf}
    (read : fkConfInit path = some (some conf)) : conf.Sane := by
  unfold fkConfInit at read
  split at read
  · cases read
    exact fkConfDefault_sane
  · cases read
  · next file =>
      split at read
      · cases read
      · cases read
      · next after changed ran =>
          cases read
          exact fileLoop_sane file.length 0 file _ fkConfDefault _ _ _ fkConfDefault_sane ran

end Freekick
