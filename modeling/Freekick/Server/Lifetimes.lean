import Freekick.Kdb.Children
import Freekick.Kdb.Reload

/-!
# Lives of the server: `fk_svr_init`, `fk_svr_timer_cb`, `fk_svr_exit`

The server starts from its dump file, serves, saves by itself and by its children, and stops, is
killed or crashes at any time; then it starts again.  Dumps are on and the log is off.  A child
works on the memory as it was when it was made, and lives on when the server does not.  The calls
on the files succeed.
-/

namespace Freekick

open Lib.Call Lib.Steps

/-! ## The server and its children -/

/-- What the server leaves behind, or the server with its children and the memory of the child
that saves. -/
inductive FkLife where
  | down (dbFile : Option Bytes) (readings : Nat)
  | up (sys : FkSystem) (children : FkChildren) (copy : FkSvr)

/-- The memory of a child that still saves after its server is gone.  Beside a server that was
started again it is not followed. -/
structure FkHost where
  life : FkLife
  orphan : Option FkSvr

def FkLife.dbFile : FkLife → Option Bytes
  | .down dbFile _ => dbFile
  | .up sys _ _ => sys.svr.dbFile

def FkLife.running : FkLife → Bool
  | .down _ _ => false
  | .up _ _ _ => true

/-- The child that the server knows is saving. -/
def FkChildren.Saving (children : FkChildren) : Prop :=
  children.procs (children.pid .save) = some ⟨.save, none⟩

instance (children : FkChildren) : Decidable children.Saving :=
  inferInstanceAs (Decidable (children.procs (children.pid .save) = some ⟨.save, none⟩))

/-- The dump file after `fk_kdb_save` in this memory. -/
def FkSvr.replaces (svr : FkSvr) (dbFile : Option Bytes) : Option Bytes :=
  if svr.save.1 = .ok then svr.save.2.dbFile else dbFile

def FkChildren.orphan (children : FkChildren) (copy : FkSvr) : Option FkSvr :=
  if children.Saving then some copy else none

/-- A start, some time after the server was last up; an event of a client; a call of the timer; the
end of the save of a child; the end of a child before that; a shutdown; and the sudden ends of the
server alone and of the whole machine. -/
inductive Turn where
  | start (passed : Nat)
  | serve (event : Event)
  | timer (tick : Tick) (rand : Nat → Nat) (fuel : Nat)
  | childSaves
  | childDies (signal : Nat)
  | stop
  | killed
  | powerOff

/-- The dump file that a crash of an event leaves. -/
def FkSystem.crashFile (sys : FkSystem) : Event → Option Bytes
  | .command client args =>
      if (sys.conns client).isSome then sys.svr.fileAfter args else sys.svr.dbFile
  | _ => sys.svr.dbFile

/-- The settings that matter here. -/
def dumping : FkPersist := ⟨true, false⟩

section Host

variable (fkCmdEval : Handler) (maxWbuf dbcnt : Nat) (clock : Nat → Int) (junk : Nat → UInt8)

/-- `fk_svr_init`; a file that cannot be loaded makes it exit.  `none` is an undefined operation. -/
def fkSvrStart (dbFile : Option Bytes) (readings : Nat) : Option FkLife :=
  let fresh : FkSvr :=
    { fkSvrInit dbcnt false clock junk with dbFile := dbFile, readings := readings }
  match dbFile with
  | none => some (.up ⟨fresh, fun _ => none⟩ fkChildrenInit fresh)
  | some file =>
      match fkKdbLoad fresh file with
      | .ok _ load => some (.up ⟨load.svr, fun _ => none⟩ fkChildrenInit load.svr)
      | .err _ => some (.down dbFile readings)
      | .fault => none

/-- The server of `fk_svr_timer_cb` between its waits and its sweep. -/
def FkSystem.withPid (sys : FkSystem) (pid : Int) : FkSystem :=
  { sys with svr := { sys.svr with savePid := pid } }

/-- The call has made a child that saves. -/
def FkChildren.Forks (children after : FkChildren) : Prop :=
  (children.reap .save).pid .save = -1 ∧ after.pid .save ≠ -1

instance (children after : FkChildren) : Decidable (children.Forks after) :=
  inferInstanceAs (Decidable (_ ∧ _))

namespace FkHost

/-- The turns of a server that is up; `none` is a turn that cannot happen, or an undefined
operation. -/
def stepUp (host : FkHost) (sys : FkSystem) (children : FkChildren) (copy : FkSvr) :
    Turn → Option FkHost
  | .start _ => none
  | .serve event =>
      match sys.step fkCmdEval maxWbuf event with
      | some next => some { host with life := .up next children copy }
      | none => some ⟨.down (sys.crashFile event) sys.svr.readings, children.orphan copy⟩
  | .timer tick rand fuel =>
      (fkSvrTimerCb dumping tick children).bind fun after =>
        if tick.signaled then some
          { host with life := .up (sys.withPid (after.pid .save)) after copy }
        else
          ((sys.withPid (after.pid .save)).moment fkCmdEval maxWbuf (.sweep rand fuel)).map
            fun next =>
            { host with life := .up next after (if children.Forks after then sys.svr else copy) }
  | .childSaves =>
      if children.Saving then
        (children.step dumping (.ends (children.pid .save)
          (if copy.save.1 = .ok then exitSuccess else .exited 1))).map fun after =>
            { host with
              life := .up
                { sys with svr := { sys.svr with dbFile := copy.replaces sys.svr.dbFile } }
                after copy }
      else none
  | .childDies signal =>
      if children.Saving then
        (children.step dumping (.ends (children.pid .save) (.killed signal))).map fun after =>
          { host with life := .up sys after copy }
      else none
  | .stop =>
      -- `fk_svr_exit` waits for the child first
      if children.Saving then none
      else some { host with life := .down (sys.svr.replaces sys.svr.dbFile) sys.svr.readings }
  | .killed => some ⟨.down sys.svr.dbFile sys.svr.readings, children.orphan copy⟩
  | .powerOff => some ⟨.down sys.svr.dbFile sys.svr.readings, none⟩

/-- The turns while the server is down.  It may be started while a child of the last life works. -/
def stepDown (host : FkHost) (dbFile : Option Bytes) (readings : Nat) : Turn → Option FkHost
  | .start passed =>
      (fkSvrStart dbcnt clock junk dbFile (readings + passed)).map fun life =>
        { host with life := life }
  | .childSaves => host.orphan.map fun copy => ⟨.down (copy.replaces dbFile) readings, none⟩
  | .childDies _ => host.orphan.map fun _ => ⟨.down dbFile readings, none⟩
  | .powerOff => some ⟨.down dbFile readings, none⟩
  | _ => none

def step (host : FkHost) (turn : Turn) : Option FkHost :=
  match host.life with
  | .down dbFile readings => host.stepDown dbcnt clock junk dbFile readings turn
  | .up sys children copy => host.stepUp fkCmdEval maxWbuf sys children copy turn

end FkHost

end Host

/-- Nothing was ever dumped. -/
def fkHostInit : FkHost := ⟨.down none 0, none⟩

/-! ## What was dumped -/

/-- The number of turns so far, when the last child was made that saves and what it copied, and when
the dump file was copied from memory and what it holds. -/
structure Ledger where
  turns : Nat
  forked : Nat × (Nat → Keyspace)
  image : Nat × (Nat → Keyspace)

def ledgerInit : Ledger := ⟨0, (0, fun _ => .empty), (0, fun _ => .empty)⟩

namespace Ledger

/-- A copy of the memory that a successful save has put in the place of the dump file. -/
def dumped (ledger : Ledger) : FkLife → Option FkSvr → Turn → Option (Nat × (Nat → Keyspace))
  | .up sys _ _, _, .serve (.command client args) =>
      if (sys.conns client).isSome ∧ cmdOf args = .save ∧ sys.svr.savePid = -1 ∧
        sys.svr.save.1 = .ok then
        some (ledger.turns, sys.svr.spaces)
      else none
  | .up sys _ _, _, .stop =>
      if sys.svr.save.1 = .ok then some (ledger.turns, sys.svr.spaces) else none
  | .up _ _ copy, _, .childSaves => if copy.save.1 = .ok then some ledger.forked else none
  | .down _ _, some copy, .childSaves => if copy.save.1 = .ok then some ledger.forked else none
  | _, _, _ => none

/-- The copy that a turn gives to a new child. -/
def forks (ledger : Ledger) : FkLife → Turn → Option (Nat × (Nat → Keyspace))
  | .up sys children _, .timer tick _ _ =>
      if ∃ after ∈ fkSvrTimerCb dumping tick children, children.Forks after then
        some (ledger.turns, sys.svr.spaces) else none
  | _, _ => none

def note (ledger : Ledger) (host : FkHost) (turn : Turn) : Ledger where
  turns := ledger.turns + 1
  forked := (ledger.forks host.life turn).getD ledger.forked
  image := (ledger.dumped host.life host.orphan turn).getD ledger.image

end Ledger

/-! ## Memories and files -/

/-- A good memory that stands for the keyspaces. -/
structure FkSvr.Holding (dbcnt : Nat) (svr : FkSvr) (spaces : Nat → Keyspace) : Prop where
  good : svr.Good
  count : svr.dbcnt = dbcnt
  spaces : ∀ idx < dbcnt, svr.spaces idx = spaces idx

/-- The file is the text of such a memory, or there is none and every keyspace is empty. -/
inductive Dump (dbcnt : Nat) (spaces : Nat → Keyspace) : Option Bytes → Prop
  | absent (empty : ∀ idx < dbcnt, spaces idx = .empty) : Dump dbcnt spaces none
  | text {svr : FkSvr} (holding : svr.Holding dbcnt spaces) (named : svr.Named) :
    Dump dbcnt spaces (some svr.dumpText)

theorem fkDictCreate_space :
    Keyspace.mk (dbMap fkDictCreate)
      (fun key => (fkDictGet dbDictEop (fkDictCreate : FkDb) key).bind FkItem.number?) =
        .empty := by
  have nothing : fkDictGet dbDictEop (fkDictCreate : FkDb) = fun _ => none :=
    fkDictGet_init dbDictEop_lawful
  unfold dbMap
  rw [nothing]
  rfl

section Files

variable {dbcnt : Nat} {svr : FkSvr} {spaces old : Nat → Keyspace} {dbFile : Option Bytes}

theorem Dump.replaces (dump : Dump dbcnt old dbFile) (holding : svr.Holding dbcnt spaces) :
    Dump dbcnt (if svr.save.1 = .ok then spaces else old) (svr.replaces dbFile) := by
  unfold FkSvr.replaces
  rcases FkSvr.save_cases holding.good.ok with ⟨named, saved⟩ | ⟨_, saved⟩
  · rw [saved]
    exact .text holding named
  · rw [saved]
    exact dump

/-- A client that saves leaves the same file as a child. -/
theorem FkSvr.save_file (ok : SvrOk ArgName svr) : svr.save.2.dbFile = svr.replaces svr.dbFile := by
  unfold FkSvr.replaces
  rcases FkSvr.save_cases ok with ⟨_, saved⟩ | ⟨_, saved⟩
  · rw [saved]
    rfl
  · rw [saved]
    rfl

variable {clock : Nat → Int} {junk : Nat → UInt8} {readings : Nat}

/-- A start finds what the file stands for. -/
theorem Dump.starts (dump : Dump dbcnt spaces dbFile) :
    ∃ sys, fkSvrStart dbcnt clock junk dbFile readings = some (.up sys fkChildrenInit sys.svr) ∧
      sys.Sound ∧ sys.svr.dbcnt = dbcnt ∧ sys.svr.savePid = -1 ∧ sys.svr.dbFile = dbFile ∧
      (∀ client, sys.conns client = none) ∧ ∀ idx < dbcnt, sys.svr.spaces idx = spaces idx := by
  cases dump with
  | absent empty =>
      have sound := fkSystemInit_sound dbcnt false clock junk
      refine ⟨⟨{ fkSvrInit dbcnt false clock junk with dbFile := none, readings := readings },
        fun _ => none⟩, rfl, ⟨sound.ok, sound.timed,
          fun _ _ found => absurd found.symm (Option.some_ne_none _)⟩, rfl, rfl, rfl, fun _ => rfl,
        fun idx below => ?_⟩
      rw [empty idx below]
      exact fkDictCreate_space
  | @text svr holding named =>
      have fresh : FkSvr.Empty { fkSvrInit dbcnt false clock junk with
          dbFile := some svr.dumpText, readings := readings } := by
        intro isexp idx
        cases isexp <;> rfl
      obtain ⟨loaded, load, reloads⟩ :=
        fkKdbLoad_dumpText holding.good named fresh holding.count.symm
      refine ⟨⟨loaded, fun _ => none⟩, ?_,
        ⟨reloads.ok, reloads.timed, fun _ _ found => absurd found.symm (Option.some_ne_none _)⟩, ?_,
        ?_, reloads.dbFile, fun _ => rfl, fun idx below => ?_⟩
      · unfold fkSvrStart
        dsimp only
        rw [load]
      · exact congrArg (fun parts => parts.1) reloads.frame
      · exact congrArg (fun parts => parts.2.1) reloads.frame
      · rw [← holding.spaces idx below]
        exact reloads.spaces idx (Nat.lt_of_lt_of_eq below holding.count.symm)

end Files

/-! ## The children of the server -/

namespace FkChildren

variable {children after : FkChildren} {tick : Tick}

/-- What the server knows about its children between two turns, when the log is off. -/
structure Tidy (children : FkChildren) : Prop where
  sole : children.Sole
  alone : children.pid .rewrite = -1
  idle : children.saving = false

/-- No child saves while the server knows of none. -/
theorem Tidy.not_saving (tidy : children.Tidy) (none : children.pid .save = -1) :
    ¬ children.Saving := by
  intro saving
  have positive := tidy.sole.positive (children.pid .save)
    (by rw [saving]; exact Option.some_ne_none _)
  omega

theorem reap_rewrite (alone : children.pid .rewrite = -1) : children.reap .rewrite = children := by
  rw [reap, if_pos alone]

theorem reap_alone (alone : children.pid .rewrite = -1) :
    (children.reap .save).pid .rewrite = -1 := by
  rcases reap_cases .save children with ⟨same, _⟩ | ⟨_, _, _, _, same⟩
  · rw [same]
    exact alone
  · rw [same]
    dsimp only
    split
    · exact (Function.update_of_ne (by decide) ..).trans alone
    · exact alone

/-- The timer waits for the child that saves, and makes a new one. -/
theorem timer_eq (alone : children.pid .rewrite = -1) :
    fkSvrTimerCb dumping tick children =
      if tick.signaled then some (children.reap .save)
      else (children.reap .save).spawn .save tick.saveFork := by
  unfold fkSvrTimerCb
  dsimp only
  rw [reap_rewrite (reap_alone alone)]
  split
  · rfl
  · change ((children.reap .save).spawn .save tick.saveFork).bind some = _
    exact Option.bind_fun_some _

theorem Tidy.reap (tidy : children.Tidy) : (children.reap .save).Tidy where
  sole := tidy.sole.reap .save tidy.idle
  alone := reap_alone tidy.alone
  idle := (reap_saving .save children).trans tidy.idle

/-- A child that still saves was not reaped. -/
theorem Tidy.saving_of_reap (tidy : children.Tidy) (saving : (children.reap .save).Saving) :
    children.Saving := by
  have idle := tidy.reap.not_saving
  rcases reap_cases .save children with ⟨same, _⟩ | ⟨kind, status, some, held, same⟩
  · rwa [same] at saving
  · rw [same] at saving idle
    dsimp only at saving idle
    split at saving
    · next success =>
        rw [if_pos success, Function.update_self] at idle
        exact absurd saving (idle rfl)
    · next failed =>
        change Function.update children.procs (children.pid .save) none
          (children.pid .save) = _ at saving
        rw [Function.update_self] at saving
        cases saving

/-- A call that makes a child, and one that does not. -/
theorem spawn_cases {job : Job} {forked : Int} (spawned : children.spawn job forked = some after) :
    after = children ∨ children.pid job = -1 ∧ after.pid = Function.update children.pid job forked ∧
      forked ≠ -1 := by
  unfold spawn at spawned
  split at spawned
  · cases spawned
    exact .inl rfl
  · next none =>
      split at spawned
      · cases spawned
        exact .inl rfl
      · next some =>
          split at spawned
          · cases spawned
            exact .inr ⟨not_not.mp none, rfl, some⟩
          · cases spawned

/-- After the timer a child saves that was made just now, or did before. -/
theorem Tidy.timer (tidy : children.Tidy)
    (called : fkSvrTimerCb dumping tick children = some after) :
    after.Tidy ∧ (after.Saving → children.Forks after ∨ children.Saving) ∧
      (tick.signaled = true → ¬ children.Forks after) := by
  rw [timer_eq tidy.alone] at called
  have kept := tidy.reap
  split at called
  · cases called
    exact ⟨kept, fun saving => .inr (tidy.saving_of_reap saving), fun _ forks => forks.2 forks.1⟩
  · next quiet =>
      obtain ⟨sole, idle⟩ := kept.sole.spawn kept.idle called
      have quiet : tick.signaled = true → ¬ children.Forks after :=
        fun signaled => absurd signaled quiet
      rcases spawn_cases called with rfl | ⟨none, pid, made⟩
      · exact ⟨kept, fun saving => .inr (tidy.saving_of_reap saving), quiet⟩
      · have alone : after.pid .rewrite = -1 := by
          rw [pid, Function.update_of_ne (by decide)]
          exact kept.alone
        have forks : children.Forks after := by
          refine ⟨none, ?_⟩
          rw [pid, Function.update_self]
          exact made
        exact ⟨⟨sole, alone, idle⟩, fun _ => .inl forks, quiet⟩

/-- The end of a child that saves. -/
theorem Tidy.ends (tidy : children.Tidy) (saving : children.Saving) (status : Exit) :
    ∃ after, children.step dumping (.ends (children.pid .save) status) = some after ∧ after.Tidy ∧
      ¬ after.Saving ∧ after.pid .save = children.pid .save := by
  have stepped : children.step dumping (.ends (children.pid .save) status) = some { children with
      procs := Function.update children.procs (children.pid .save)
        (some ⟨.save, some status⟩) } := by
    rw [step, saving]
  refine ⟨_, stepped, ⟨tidy.sole.step stepped, tidy.alone, tidy.idle⟩, fun still => ?_, rfl⟩
  unfold Saving at still
  dsimp only at still
  rw [Function.update_self] at still
  cases still

end FkChildren

/-! ## One turn -/

namespace Ledger

def Ordered (ledger : Ledger) : Prop :=
  ledger.forked.1 ≤ ledger.turns ∧ ledger.image.1 ≤ ledger.turns

/-- The memory is the last one that a child was given, and newer than the dump file. -/
structure Copies (dbcnt : Nat) (ledger : Ledger) (copy : FkSvr) : Prop where
  holding : copy.Holding dbcnt ledger.forked.2
  newer : ledger.image.1 ≤ ledger.forked.1

end Ledger

/-- A server that is up. -/
structure FkSystem.Lives (dbcnt : Nat) (sys : FkSystem) (children : FkChildren) (copy : FkSvr)
    (ledger : Ledger) : Prop where
  sound : sys.Sound
  count : sys.svr.dbcnt = dbcnt
  pid : sys.svr.savePid = children.pid .save
  tidy : children.Tidy
  copies : children.Saving → ledger.Copies dbcnt copy

/-- What the file and the memories stand for is what the ledger says. -/
structure FkHost.Recorded (dbcnt : Nat) (host : FkHost) (ledger : Ledger) : Prop where
  file : Dump dbcnt ledger.image.2 host.life.dbFile
  up : ∀ sys children copy, host.life = .up sys children copy →
    sys.Lives dbcnt children copy ledger ∧ host.orphan = none
  orphan : ∀ copy, host.orphan = some copy → ledger.Copies dbcnt copy
  ordered : ledger.Ordered

/-- The requests are admitted, the server is not started beside a child of the last life, which
would write the same temporary file as its own, and the counts of the databases have the values of
their types. -/
def Turn.Accepted (host : FkHost) (turn : Turn) : Prop :=
  (match turn with
    | .serve event => event.Admitted
    | .start _ => host.orphan.isNone = true
    | _ => True) ∧
  match host.life with
  | .up sys _ _ => sys.svr.Counted
  | .down _ _ => True

/-- The turn kept the record, and the dump file is no older than before. -/
structure FkHost.Advances (dbcnt : Nat) (ledger : Ledger) (next : FkHost)
    (after : Ledger) : Prop where
  recorded : next.Recorded dbcnt after
  newer : ledger.image.1 ≤ after.image.1

section Note

variable {ledger after : Ledger} {host : FkHost} {turn : Turn} {image : Nat × (Nat → Keyspace)}
  {dbcnt : Nat}

/-- What is dumped is the memory of now or that of the child. -/
theorem Ledger.dumped_time (dumped : ledger.dumped host.life host.orphan turn = some image) :
    image.1 = ledger.turns ∨ image = ledger.forked ∧ turn = .childSaves := by
  unfold Ledger.dumped at dumped
  split at dumped
  · split at dumped <;> cases dumped
    exact .inl rfl
  · split at dumped <;> cases dumped
    exact .inl rfl
  · split at dumped <;> cases dumped
    exact .inr ⟨rfl, rfl⟩
  · split at dumped <;> cases dumped
    exact .inr ⟨rfl, rfl⟩
  · cases dumped

theorem Ledger.note_ordered (ordered : ledger.Ordered) (host : FkHost) (turn : Turn) :
    (ledger.note host turn).Ordered := by
  constructor
  · change ((ledger.forks host.life turn).getD ledger.forked).1 ≤ ledger.turns + 1
    unfold Ledger.forks
    split
    · split
      · exact Nat.le_succ _
      · exact Nat.le_succ_of_le ordered.1
    · exact Nat.le_succ_of_le ordered.1
  · change ((ledger.dumped host.life host.orphan turn).getD ledger.image).1 ≤ ledger.turns + 1
    cases dumped : ledger.dumped host.life host.orphan turn with
    | none => exact Nat.le_succ_of_le ordered.2
    | some image =>
        rcases Ledger.dumped_time dumped with now | ⟨rfl, _⟩
        · exact now.le.trans (Nat.le_succ _)
        · exact Nat.le_succ_of_le ordered.1

theorem Ledger.note_newer (ordered : ledger.Ordered)
    (copies : turn = .childSaves → ledger.image.1 ≤ ledger.forked.1) :
    ledger.image.1 ≤ (ledger.note host turn).image.1 := by
  change _ ≤ ((ledger.dumped host.life host.orphan turn).getD ledger.image).1
  cases dumped : ledger.dumped host.life host.orphan turn with
  | none => exact Nat.le_refl _
  | some image =>
      rcases Ledger.dumped_time dumped with now | ⟨rfl, saves⟩
      · exact ordered.2.trans now.ge
      · exact copies saves

theorem advances_up {sys : FkSystem} {children : FkChildren} {copy : FkSvr}
    (file : Dump dbcnt after.image.2 sys.svr.dbFile)
    (lives : sys.Lives dbcnt children copy after) (ordered : after.Ordered)
    (newer : ledger.image.1 ≤ after.image.1) :
    FkHost.Advances dbcnt ledger ⟨.up sys children copy, none⟩ after where
  recorded := by
    refine ⟨file, fun other kids memory same => ?_,
      fun copy orphan => absurd orphan (Option.some_ne_none _).symm, ordered⟩
    cases same
    exact ⟨lives, rfl⟩
  newer := newer

theorem advances_down {dbFile : Option Bytes} {readings : Nat} {orphan : Option FkSvr}
    (file : Dump dbcnt after.image.2 dbFile)
    (copies : ∀ copy, orphan = some copy → after.Copies dbcnt copy) (ordered : after.Ordered)
    (newer : ledger.image.1 ≤ after.image.1) :
    FkHost.Advances dbcnt ledger ⟨.down dbFile readings, orphan⟩ after where
  recorded := by
    refine ⟨file, fun sys children copy same => ?_, copies, ordered⟩
    cases same
  newer := newer

end Note

section Serve

variable {fkCmdEval : Handler} {maxWbuf dbcnt : Nat} {sys next : FkSystem} {children : FkChildren}
  {copy : FkSvr} {ledger : Ledger} {event : Event}

theorem FkSystem.Lives.holding (lives : sys.Lives dbcnt children copy ledger)
    (counted : sys.svr.Counted) :
    sys.svr.Holding dbcnt sys.svr.spaces where
  good := ⟨lives.sound.ok, lives.sound.timed, counted⟩
  count := lives.count
  spaces := fun _ _ => rfl

theorem FkSystem.step_file (admitted : event.Admitted) (sound : sys.Sound)
    (stepped : sys.step fkCmdEval maxWbuf event = some next) :
    next.svr.dbFile = sys.crashFile event ∧ next.svr.savePid = sys.svr.savePid := by
  cases event with
  | command client args =>
      unfold FkSystem.crashFile
      dsimp only
      refine ⟨?_, (FkSystem.command_commanded admitted sound.ok sound.timed stepped).savePid⟩
      cases connected : sys.conns client with
      | none =>
          change sys.command fkCmdEval client args = some next at stepped
          rw [FkSystem.command, connected] at stepped
          cases stepped
          rfl
      | some out => exact FkSystem.command_file admitted connected stepped
  | connect client =>
      cases stepped
      exact ⟨rfl, rfl⟩
  | sent client count =>
      cases stepped
      exact ⟨rfl, rfl⟩
  | close client =>
      cases stepped
      exact ⟨rfl, rfl⟩

/-- Nothing is dumped while a child saves. -/
theorem Ledger.dumped_idle {orphan : Option FkSvr} (busy : sys.svr.savePid ≠ -1) :
    ledger.dumped (.up sys children copy) orphan (.serve event) = none := by
  cases event with
  | command client args =>
      unfold Ledger.dumped
      dsimp only
      rw [if_neg fun all => busy all.2.2.1]
  | connect client => rfl
  | sent client count => rfl
  | close client => rfl

theorem FkSystem.Lives.crashFile_dump (lives : sys.Lives dbcnt children copy ledger)
    (counted : sys.svr.Counted) (file : Dump dbcnt ledger.image.2 sys.svr.dbFile) (event : Event) :
    Dump dbcnt (ledger.note ⟨.up sys children copy, none⟩ (.serve event)).image.2
      (sys.crashFile event) := by
  cases event with
  | command client args =>
      have replaced := file.replaces (lives.holding counted)
      change Dump dbcnt ((Ledger.dumped ledger (.up sys children copy) none
        (.serve (.command client args))).getD ledger.image).2 _
      unfold Ledger.dumped FkSystem.crashFile FkSvr.fileAfter
      dsimp only
      by_cases connected : (sys.conns client).isSome
      · rw [if_pos connected]
        by_cases saves : cmdOf args = .save ∧ sys.svr.savePid = -1
        · rw [if_pos saves, FkSvr.save_file lives.sound.ok]
          by_cases done : sys.svr.save.1 = .ok
          · rw [if_pos done] at replaced
            rw [if_pos ⟨connected, saves.1, saves.2, done⟩]
            exact replaced
          · rw [if_neg done] at replaced
            rw [if_neg fun all => done all.2.2.2]
            exact replaced
        · rw [if_neg saves, if_neg fun all => saves ⟨all.2.1, all.2.2.1⟩]
          exact file
      · rw [if_neg connected, if_neg fun all => connected all.1]
        exact file
  | connect client => exact file
  | sent client count => exact file
  | close client => exact file

end Serve

/-! ## The turns of a server that is up -/

theorem pid_framed (pid : Int) : Framed fun work => work.svr.savePid = pid where
  db := fun _ _ _ same => same
  expdb := fun _ _ _ same => same
  tick := fun _ same => same
  blog := fun _ _ same => same
  out := fun _ _ same => same

section Up

variable {fkCmdEval : Handler} {maxWbuf dbcnt : Nat} {sys : FkSystem} {children : FkChildren}
  {copy : FkSvr} {ledger : Ledger} {next : FkHost}

/-- A server that is up, and its dump file. -/
structure FkSystem.Works (dbcnt : Nat) (sys : FkSystem) (children : FkChildren) (copy : FkSvr)
    (ledger : Ledger) : Prop where
  lives : sys.Lives dbcnt children copy ledger
  file : Dump dbcnt ledger.image.2 sys.svr.dbFile
  ordered : ledger.Ordered
  counted : sys.svr.Counted

namespace FkSystem.Works

theorem orphan (works : sys.Works dbcnt children copy ledger) :
    ∀ left, children.orphan copy = some left → ledger.Copies dbcnt left := by
  intro left same
  unfold FkChildren.orphan at same
  split at same
  · next saving =>
      cases same
      exact works.lives.copies saving
  · cases same

theorem serve {event : Event} (works : sys.Works dbcnt children copy ledger) (positive : 0 < dbcnt)
    (admitted : event.Admitted)
    (stepped : FkHost.stepUp fkCmdEval maxWbuf ⟨.up sys children copy, none⟩ sys children copy
      (.serve event) = some next) :
    next.Advances dbcnt ledger (ledger.note ⟨.up sys children copy, none⟩ (.serve event)) := by
  have lives := works.lives
  have file := lives.crashFile_dump works.counted works.file event
  have ordered := Ledger.note_ordered works.ordered ⟨.up sys children copy, none⟩ (.serve event)
  have newer := @Ledger.note_newer ledger ⟨.up sys children copy, none⟩ (.serve event) works.ordered
    (by intro same; cases same)
  have copies : children.Saving →
      (ledger.note ⟨.up sys children copy, none⟩ (.serve event)).Copies dbcnt copy := by
    intro saving
    have busy : sys.svr.savePid ≠ -1 := fun idle => lives.tidy.not_saving (lives.pid ▸ idle) saving
    have image : (ledger.note ⟨.up sys children copy, none⟩ (.serve event)).image = ledger.image :=
      congrArg (fun dumped => dumped.getD ledger.image) (Ledger.dumped_idle busy)
    obtain ⟨holding, order⟩ := lives.copies saving
    exact ⟨holding, by rw [image]; exact order⟩
  unfold FkHost.stepUp at stepped
  dsimp only at stepped
  split at stepped
  · next after called =>
      cases stepped
      obtain ⟨sound, count⟩ := FkSystem.step_sound (by rw [lives.count]; exact positive) admitted
        lives.sound called
      obtain ⟨left, pid⟩ := FkSystem.step_file admitted lives.sound called
      exact advances_up (by rw [left]; exact file)
        ⟨sound, count.trans lives.count, pid.trans lives.pid, lives.tidy, copies⟩ ordered newer
  · cases stepped
    refine advances_down file (fun left same => ?_) ordered newer
    unfold FkChildren.orphan at same
    split at same
    · next saving =>
        cases same
        exact copies saving
    · cases same

theorem timer {tick : Tick} {rand : Nat → Nat} {fuel : Nat}
    (works : sys.Works dbcnt children copy ledger) (positive : 0 < dbcnt)
    (stepped : FkHost.stepUp fkCmdEval maxWbuf ⟨.up sys children copy, none⟩ sys children copy
      (.timer tick rand fuel) = some next) :
    next.Advances dbcnt ledger
      (ledger.note ⟨.up sys children copy, none⟩ (.timer tick rand fuel)) := by
  have lives := works.lives
  have ordered := Ledger.note_ordered works.ordered ⟨.up sys children copy, none⟩
    (.timer tick rand fuel)
  obtain ⟨after, called, rest⟩ := Option.bind_eq_some_iff.mp stepped
  obtain ⟨tidy, origin, quiet⟩ := lives.tidy.timer called
  have forked : (ledger.note ⟨.up sys children copy, none⟩ (.timer tick rand fuel)).forked =
      if children.Forks after then (ledger.turns, sys.svr.spaces) else ledger.forked := by
    change (Ledger.forks ledger (.up sys children copy) (.timer tick rand fuel)).getD
      ledger.forked = _
    unfold Ledger.forks
    simp only [called, Option.mem_def, Option.some.injEq, exists_eq_left']
    split <;> rfl
  have copies : after.Saving →
      (ledger.note ⟨.up sys children copy, none⟩ (.timer tick rand fuel)).Copies dbcnt
      (if children.Forks after then sys.svr else copy) := by
    intro saving
    refine ⟨?_, ?_⟩
    · rw [forked]
      split
      · exact lives.holding works.counted
      · next old => exact (lives.copies ((origin saving).resolve_left old)).holding
    · rw [forked]
      split
      · exact works.ordered.2
      · next old => exact (lives.copies ((origin saving).resolve_left old)).newer
  have sound : (sys.withPid (after.pid .save)).Sound :=
    ⟨lives.sound.ok, lives.sound.timed, lives.sound.idx⟩
  dsimp only at rest
  split at rest
  · next signaled =>
      cases rest
      rw [if_neg (quiet signaled)] at copies
      exact advances_up works.file ⟨sound, lives.count, rfl, tidy, copies⟩ ordered (Nat.le_refl _)
  · obtain ⟨swept, moved, rfl⟩ := Option.map_eq_some_iff.mp rest
    have inside : 0 < (sys.withPid (after.pid .save)).svr.dbcnt :=
      Nat.lt_of_lt_of_eq positive lives.count.symm
    obtain ⟨kept, count⟩ := @FkSystem.moment_sound _ _ _ _ (.sweep rand fuel) inside
      trivial sound moved
    have file : swept.svr.dbFile = sys.svr.dbFile :=
      @Framed.sweep (fun svr => svr.dbFile = sys.svr.dbFile) _ _ _ _ (sys.withPid (after.pid .save))
        swept (file_framed _) rfl moved
    have pid : swept.svr.savePid = after.pid .save :=
      @Framed.sweep (fun svr => svr.savePid = after.pid .save) _ _ _ _
        (sys.withPid (after.pid .save)) swept (pid_framed _) rfl moved
    exact advances_up (by rw [file]; exact works.file) ⟨kept, count.trans lives.count, pid, tidy,
      copies⟩ ordered (Nat.le_refl _)

theorem childSaves (works : sys.Works dbcnt children copy ledger)
    (stepped : FkHost.stepUp fkCmdEval maxWbuf ⟨.up sys children copy, none⟩ sys children copy
      .childSaves = some next) :
    next.Advances dbcnt ledger (ledger.note ⟨.up sys children copy, none⟩ .childSaves) := by
  have lives := works.lives
  unfold FkHost.stepUp at stepped
  dsimp only at stepped
  split at stepped
  · next saving =>
      obtain ⟨after, ended, tidy, ceased, pid⟩ :=
        lives.tidy.ends saving (if copy.save.1 = .ok then exitSuccess else .exited 1)
      rw [ended] at stepped
      cases stepped
      have replaced := works.file.replaces (lives.copies saving).holding
      have file : Dump dbcnt (ledger.note ⟨.up sys children copy, none⟩ .childSaves).image.2
          (copy.replaces sys.svr.dbFile) := by
        change Dump dbcnt ((Ledger.dumped ledger (.up sys children copy) none .childSaves).getD
          ledger.image).2 _
        unfold Ledger.dumped
        dsimp only
        split at replaced
        · next done =>
            rw [if_pos done]
            exact replaced
        · next failed =>
            rw [if_neg failed]
            exact replaced
      exact advances_up file
        ⟨⟨lives.sound.ok, lives.sound.timed, lives.sound.idx⟩, lives.count,
          lives.pid.trans pid.symm, tidy, fun saving => absurd saving ceased⟩
        (Ledger.note_ordered works.ordered _ _)
          (Ledger.note_newer works.ordered fun _ => (lives.copies saving).newer)
  · cases stepped

theorem childDies {signal : Nat} (works : sys.Works dbcnt children copy ledger)
    (stepped : FkHost.stepUp fkCmdEval maxWbuf ⟨.up sys children copy, none⟩ sys children copy
      (.childDies signal) = some next) :
    next.Advances dbcnt ledger (ledger.note ⟨.up sys children copy, none⟩ (.childDies signal)) := by
  have lives := works.lives
  unfold FkHost.stepUp at stepped
  dsimp only at stepped
  split at stepped
  · next saving =>
      obtain ⟨after, ended, tidy, ceased, pid⟩ := lives.tidy.ends saving (.killed signal)
      rw [ended] at stepped
      cases stepped
      exact advances_up works.file ⟨lives.sound, lives.count, lives.pid.trans pid.symm, tidy,
        fun saving => absurd saving ceased⟩ (Ledger.note_ordered works.ordered _ _) (Nat.le_refl _)
  · cases stepped

theorem stop (works : sys.Works dbcnt children copy ledger)
    (stepped : FkHost.stepUp fkCmdEval maxWbuf ⟨.up sys children copy, none⟩ sys children copy
      .stop = some next) :
    next.Advances dbcnt ledger (ledger.note ⟨.up sys children copy, none⟩ .stop) := by
  have replaced := works.file.replaces (works.lives.holding works.counted)
  unfold FkHost.stepUp at stepped
  dsimp only at stepped
  split at stepped
  · cases stepped
  · cases stepped
    have file : Dump dbcnt (ledger.note ⟨.up sys children copy, none⟩ .stop).image.2
        (sys.svr.replaces sys.svr.dbFile) := by
      change Dump dbcnt ((Ledger.dumped ledger (.up sys children copy) none .stop).getD
        ledger.image).2 _
      unfold Ledger.dumped
      dsimp only
      split at replaced
      · next done =>
          rw [if_pos done]
          exact replaced
      · next failed =>
          rw [if_neg failed]
          exact replaced
    exact advances_down file (fun _ same => absurd same (Option.some_ne_none _).symm)
      (Ledger.note_ordered works.ordered _ _)
      (Ledger.note_newer works.ordered (by intro same; cases same))

end FkSystem.Works

end Up

/-! ## Whole lives -/

section Down

variable {dbcnt : Nat} {clock : Nat → Int} {junk : Nat → UInt8} {dbFile : Option Bytes}
  {readings : Nat} {orphan : Option FkSvr} {ledger : Ledger} {turn : Turn} {next : FkHost}

end Down

section Runs

variable {fkCmdEval : Handler} {maxWbuf dbcnt : Nat} {clock : Nat → Int} {junk : Nat → UInt8}
  {turns : List Turn} {host next : FkHost} {ledger : Ledger}

variable (fkCmdEval maxWbuf dbcnt clock junk) in
/-- The lives of a server with the ledger. -/
def FkHost.noted : FkHost × Ledger → Turn → Option (FkHost × Ledger) :=
  noting (FkHost.step fkCmdEval maxWbuf dbcnt clock junk) Ledger.note

end Runs

instance (item : FkItem) : Decidable item.Counted :=
  match item with
  | .list nodes => inferInstanceAs (Decidable (nodes.length < 2 ^ 64))
  | .dict fields => inferInstanceAs (Decidable (fields.used < 2 ^ 64))
  | .str _ => isTrue trivial
  | .sklist => isTrue trivial
  | .num _ => isTrue trivial

instance (svr : FkSvr) : Decidable svr.Counted :=
  decidable_of_iff (svr.dbcnt < 2 ^ 32 ∧ ∀ isexp, ∀ idx < svr.dbcnt,
    (svr.dict isexp idx).used < 2 ^ 64 ∧
      ∀ elt ∈ (svr.dict isexp idx).elements, elt.2.Counted)
    ⟨fun both => ⟨both.1, fun isexp idx below =>
      ⟨(both.2 isexp idx below).1, (both.2 isexp idx below).2⟩⟩,
      fun counted => ⟨counted.dbcnt, fun isexp idx below =>
        ⟨(counted.dicts isexp idx below).used, (counted.dicts isexp idx below).items⟩⟩⟩

instance (host : FkHost) (turn : Turn) : Decidable (turn.Accepted host) :=
  have (life : FkLife) : Decidable
      (match life with | .up sys _ _ => sys.svr.Counted | .down _ _ => True) :=
    match life with
    | .up sys _ _ => inferInstanceAs (Decidable sys.svr.Counted)
    | .down _ _ => isTrue trivial
  have : Decidable (match turn with
      | .serve event => event.Admitted
      | .start _ => host.orphan.isNone = true
      | _ => True) :=
    match turn with
    | .serve event => inferInstanceAs (Decidable event.Admitted)
    | .start _ => inferInstanceAs (Decidable (host.orphan.isNone = true))
    | .timer _ _ _ | .childSaves | .childDies _ | .stop | .killed | .powerOff => isTrue trivial
  inferInstanceAs (Decidable (_ ∧ _))

/-- The server is started again while a child of its last life works, and stops before the child
has saved. -/
def olderTurns : List Turn :=
  [.start 0, .serve (.connect 0), .serve (.command 0 [ascii "SET", ascii "k", ascii "v"]),
    .timer ⟨false, 7, -1⟩ (fun _ => 0) 3, .killed, .start 0, .stop, .childSaves]

/-- Then the child replaces the dump of the second life by that of the first one. -/
theorem fkHost_older : ∃ before rest earlier past host ledger, olderTurns = before ++ rest ∧
    run (FkHost.noted (fun _ => Act.fault) 1024 1 (fun _ => 0) (fun _ => 0))
      (fkHostInit, ledgerInit) before = some (earlier, past) ∧
    run (FkHost.noted (fun _ => Act.fault) 1024 1 (fun _ => 0) (fun _ => 0))
      (fkHostInit, ledgerInit) olderTurns = some (host, ledger) ∧
    ledger.image.1 < past.image.1 := by
  have early : (run (FkHost.noted (fun _ => Act.fault) 1024 1 (fun _ => 0) (fun _ => 0))
      (fkHostInit, ledgerInit) (olderTurns.take 7)).map (fun pair => pair.2.image.1) = some 6 :=
      by decide +kernel
  have late : (run (FkHost.noted (fun _ => Act.fault) 1024 1 (fun _ => 0) (fun _ => 0))
      (fkHostInit, ledgerInit) olderTurns).map (fun pair => pair.2.image.1) = some 3 :=
      by decide +kernel
  obtain ⟨⟨earlier, past⟩, reached, old⟩ := Option.map_eq_some_iff.mp early
  obtain ⟨⟨host, ledger⟩, ended, new⟩ := Option.map_eq_some_iff.mp late
  refine ⟨olderTurns.take 7, olderTurns.drop 7, earlier, past, host, ledger, rfl,
    reached, ended, ?_⟩
  dsimp only at old new
  omega

end Freekick
