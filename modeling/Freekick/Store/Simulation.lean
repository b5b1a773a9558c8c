import Freekick.Store.Runs
import Freekick.Store.Space
import Freekick.Store.Tables

/-!
# The server simulates tables

A run of the server beside a run of the specification: an array of tables, and the
table that each client has selected.  Every reply is the one of the specification, as
the values that are passed to the `fk_conn_add_*_rsp` family.  These are of the type
`int`, so a list of `2 ^ 31` nodes has a length that cannot be passed.
-/

namespace Freekick

open Lib.Call

/-! ## The specification -/

/-- An array of tables and the selection of each client. -/
structure Spec where
  tables : Nat → Table
  selected : Nat → Option Nat

namespace Spec

def init : Spec := ⟨fun _ _ => none, fun _ => none⟩

def reply (dbcnt : Nat) (spec : Spec) : Event → Option Reply
  | .command client args =>
      (spec.selected client).map fun idx => ((spec.tables idx).apply dbcnt (cmdOf args)).1
  | _ => none

/-- The tables after a command that leaves `own` in the selected one. -/
def after (dbcnt idx : Nat) (tables : Nat → Table) (own : Table) : Cmd → Nat → Table
  | .flushall => fun other => if other < dbcnt then fun _ => none else tables other
  | _ => Function.update tables idx own

def select (spec : Spec) (client : Nat) (idx : Option Nat) : Spec :=
  { spec with selected := Function.update spec.selected client idx }

def step (dbcnt : Nat) (spec : Spec) : Event → Spec
  | .connect client => spec.select client (some 0)
  | .command client args =>
      match spec.selected client with
      | none => spec
      | some idx =>
          let own := ((spec.tables idx).apply dbcnt (cmdOf args)).2
          ({ spec with tables := after dbcnt idx spec.tables own (cmdOf args) }).select client
            (some ((cmdOf args).selects dbcnt idx))
  | .sent _ _ => spec
  | .close client => spec.select client none

end Spec

/-! ## The relation -/

/-- The databases stand for the tables, and the clients have selected the same ones. -/
structure Related (sys : FkSystem) (spec : Spec) : Prop where
  tables : ∀ idx, (sys.svr.spaces idx).Shows (spec.tables idx)
  selected : ∀ client, (sys.conns client).map FkConnOut.dbIdx = spec.selected client

/-- The numbers that are passed are of the type `int`. -/
def Rsp.InRange : Rsp → Prop
  | .int number | .bulk number | .mbulk number => -2 ^ 31 ≤ number ∧ number < 2 ^ 31
  | _ => True

/-- The client was answered with the calls of the reply. -/
def Replied (sys next : FkSystem) (reply : Reply) : Event → Prop
  | .command client _ =>
      (∀ rsp ∈ reply.calls, rsp.InRange) ∧ ∃ out after, sys.conns client = some out ∧
      next.conns client = some after ∧
        queueAll sys.svr.junk reply.calls out.wbuf = .ok () after.wbuf
  | _ => False

/-- The run simulates the specification, with the same replies. -/
def Simulates (fkCmdEval : Handler) (maxWbuf : Nat) : FkSystem → Spec → List Event → Prop
  | sys, spec, [] => Related sys spec
  | sys, spec, event :: rest =>
      Related sys spec ∧ ∃ next, sys.step fkCmdEval maxWbuf event = some next ∧
      (∀ reply, spec.reply sys.svr.dbcnt event = some reply → Replied sys next reply event) ∧
      Simulates fkCmdEval maxWbuf next (spec.step sys.svr.dbcnt event) rest

/-- `LLEN` finds a list whose length is an `int`. -/
def ShortList (sys : FkSystem) : Event → Prop
  | .command client args => ∀ out key nodes, sys.conns client = some out → cmdOf args = .llen key →
      fkDictGet dbDictEop (sys.svr.db out.dbIdx) key = some (.list nodes) → nodes.length < 2 ^ 31
  | _ => True

/-- A command on strings, lists or whole databases. -/
def Event.Listed : Event → Prop
  | .command _ args => (cmdOf args).listed = true
  | _ => True

instance (event : Event) : Decidable event.Listed :=
  match event with
  | .command _ args => inferInstanceAs (Decidable ((cmdOf args).listed = true))
  | .connect _ => isTrue trivial
  | .sent _ _ => isTrue trivial
  | .close _ => isTrue trivial

/-! ## Numbers that are passed -/

namespace Cmd

/-- How many arguments of the request the reply can count. -/
def width : Cmd → Nat
  | .mget keys => keys.length
  | .del keys => keys.length
  | .push _ _ nodes => nodes.length
  | _ => 0

end Cmd

theorem Asks.width {name : Bytes} {rest : List Bytes} {cmd : Cmd} (asks : Asks name rest cmd) :
    cmd.width ≤ rest.length := by
  cases asks with
  | mget | del => exact Nat.le_refl _
  | lpush | rpush => exact Nat.le_succ _
  | _ => exact Nat.zero_le _

theorem Admitted.width {args : List Bytes} (admitted : Admitted args) :
    (cmdOf args).width ≤ fkArgCntHighwat := by
  have taken := (cmdOf_asks args).width
  have count := admitted.count
  rw [List.length_tail] at taken
  omega

def Entry.Short : Entry → Prop
  | .str bytes => bytes.length ≤ fkArgHighwat
  | .list nodes => ∀ node ∈ nodes, node.length ≤ fkArgHighwat

theorem single_inRange {rsp : Rsp} (inRange : rsp.InRange) : ∀ call ∈ [rsp], call.InRange :=
  List.forall_mem_singleton.mpr inRange

theorem nat_inRange {count : Nat} (small : count < 2 ^ 31) : (Rsp.int count).InRange := by
  change -2 ^ 31 ≤ (count : Int) ∧ (count : Int) < 2 ^ 31
  omega

theorem bulkCalls_inRange {item : Option Bytes}
    (short : ∀ bytes, item = some bytes → bytes.length ≤ fkArgHighwat) :
    ∀ rsp ∈ bulkCalls item, rsp.InRange := by
  have argument : fkArgHighwat < 2 ^ 31 := by decide
  cases item with
  | none => exact single_inRange (by decide : -2 ^ 31 ≤ fkRspNil ∧ fkRspNil < 2 ^ 31)
  | some bytes =>
      have fits := short bytes rfl
      rw [bulkCalls, List.forall_mem_cons]
      exact ⟨@nat_inRange bytes.length (by omega), single_inRange trivial⟩

/-- Only the length of a list can be too large to be passed. -/
theorem apply_inRange {dbcnt : Nat} {table : Table} {cmd : Cmd} (listed : cmd.listed = true)
    (short : ∀ key entry, table key = some entry → entry.Short)
    (width : cmd.width ≤ fkArgCntHighwat) :
    (∀ rsp ∈ (table.apply dbcnt cmd).1.calls, rsp.InRange) ↔
      ∀ key nodes, cmd = .llen key → table key = some (.list nodes) → nodes.length < 2 ^ 31 := by
  have limit : fkArgCntHighwat < 2 ^ 31 := by decide
  cases cmd with
  | set | mset | flushdb | flushall => exact iff_of_true (single_inRange trivial) (by rintro _ _ ⟨⟩)
  | setnx key value =>
      refine iff_of_true ?_ (by rintro _ _ ⟨⟩)
      rw [Table.apply]
      split
      · exact single_inRange (@nat_inRange 0 (by decide))
      · exact single_inRange (@nat_inRange 1 (by decide))
  | mget keys =>
      refine iff_of_true ?_ (by rintro _ _ ⟨⟩)
      rw [Table.apply, Reply.calls, List.forall_mem_cons, List.forall_mem_flatMap]
      refine ⟨?_, ?_⟩
      · rw [List.length_map]
        exact @nat_inRange keys.length (Nat.lt_of_le_of_lt width limit)
      · intro item member
        obtain ⟨key, _, rfl⟩ := List.mem_map.mp member
        refine bulkCalls_inRange fun bytes same => ?_
        obtain ⟨entry, held, bytesOf⟩ := Option.bind_eq_some_iff.mp same
        cases entry with
        | str text =>
            cases bytesOf
            exact short key _ held
        | list nodes => cases bytesOf
  | get key =>
      refine iff_of_true ?_ (by rintro _ _ ⟨⟩)
      rw [Table.apply]
      split
      · exact @bulkCalls_inRange none fun _ absent => absurd absent.symm (Option.some_ne_none _)
      · next bytes held =>
          refine @bulkCalls_inRange (some bytes) fun other same => ?_
          cases same
          exact short key _ held
      · exact single_inRange trivial
  | del keys =>
      refine iff_of_true ?_ (by rintro _ _ ⟨⟩)
      refine single_inRange (nat_inRange ?_)
      have fewer : (keys.toFinset.filter fun key => (table key).isSome).card ≤ keys.length :=
        Nat.le_trans (Finset.card_filter_le _ _) (List.toFinset_card_le keys)
      exact Nat.lt_of_le_of_lt (Nat.le_trans fewer width) limit
  | existing key =>
      refine iff_of_true ?_ (by rintro _ _ ⟨⟩)
      rw [Table.apply]
      split
      · exact single_inRange (@nat_inRange 1 (by decide))
      · exact single_inRange (@nat_inRange 0 (by decide))
  | push pos key nodes =>
      refine iff_of_true ?_ (by rintro _ _ ⟨⟩)
      rw [Table.apply]
      split
      · exact single_inRange (nat_inRange (Nat.lt_of_le_of_lt width limit))
      · exact single_inRange (nat_inRange (Nat.lt_of_le_of_lt width limit))
      · exact single_inRange trivial
  | pop pos key =>
      refine iff_of_true ?_ (by rintro _ _ ⟨⟩)
      rw [Table.apply]
      split
      · exact @bulkCalls_inRange none fun _ absent => absurd absent.symm (Option.some_ne_none _)
      · next nodes held =>
          rw [popped_eq]
          cases taken : pos.node? nodes with
          | none =>
              exact @bulkCalls_inRange none fun _ absent =>
                absurd absent.symm (Option.some_ne_none _)
          | some node =>
              refine @bulkCalls_inRange (some node) fun other same => ?_
              cases same
              exact short key _ held node (node?_mem taken)
      · exact single_inRange trivial
  | llen key =>
      rw [Table.apply]
      cases held : table key with
      | none =>
          refine iff_of_true (single_inRange (@nat_inRange 0 (by decide))) ?_
          intro other nodes same found
          cases same
          rw [held] at found
          cases found
      | some entry =>
          cases entry with
          | str bytes =>
              refine iff_of_true (single_inRange trivial) ?_
              intro other nodes same found
              cases same
              rw [held] at found
              cases found
          | list nodes =>
              refine ⟨fun inRange other found same list => ?_, fun small => ?_⟩
              · cases same
                rw [held] at list
                cases list
                have bound : -2 ^ 31 ≤ (nodes.length : Int) ∧ (nodes.length : Int) < 2 ^ 31 :=
                  inRange _ (List.mem_singleton.mpr rfl)
                omega
              · exact single_inRange (nat_inRange (small key nodes rfl held))
  | select text =>
      refine iff_of_true ?_ (by rintro _ _ ⟨⟩)
      rw [Table.apply]
      split
      · exact single_inRange trivial
      · exact single_inRange trivial
  | refused message => exact iff_of_true (single_inRange trivial) (by rintro _ _ ⟨⟩)
  | setex | hset | hget | save | zadd => cases listed

/-! ## One event -/

section Step

variable {fkCmdEval : Handler} {maxWbuf : Nat} {sys next : FkSystem} {spec : Spec} {client : Nat}
  {args : List Bytes}

theorem after_shows {dbcnt idx : Nat} {spaces : Nat → Keyspace} {tables : Nat → Table}
    {own : Keyspace} {table : Table}
    (cmd : Cmd) (shows : ∀ other, (spaces other).Shows (tables other)) (ownShows : own.Shows table)
    (other : Nat) :
    (cmd.after dbcnt idx spaces own other).Shows (Spec.after dbcnt idx tables table cmd other) := by
  have single : (Function.update spaces idx own other).Shows
      (Function.update tables idx table other) := by
    by_cases same : other = idx
    · rw [same, Function.update_self, Function.update_self]
      exact ownShows
    · rw [Function.update_of_ne same, Function.update_of_ne same]
      exact shows other
  cases cmd with
  | flushall =>
      change (if other < dbcnt then Keyspace.empty else spaces other).Shows
        (if other < dbcnt then fun _ => none else tables other)
      split
      · exact .empty
      · exact shows other
  | _ => exact single

namespace Related

/-- An entry of a table and the item it stands for. -/
theorem item (related : Related sys spec) {idx : Nat} {key : Bytes} {entry : Entry}
    (held : spec.tables idx key = some entry) :
    ∃ item, fkDictGet dbDictEop (sys.svr.db idx) key = some item ∧ item.value = entry.value := by
  have values := (related.tables idx).get key
  rw [held] at values
  exact Option.map_eq_some_iff.mp values

theorem short (related : Related sys spec) (ok : SvrOk ArgName sys.svr) {idx : Nat} {key : Bytes}
    {entry : Entry} (held : spec.tables idx key = some entry) : entry.Short := by
  obtain ⟨item, found, value⟩ := related.item held
  have itemOk := ((ok false idx).held key item found).2
  cases entry with
  | str bytes =>
      cases item with
      | str text =>
          cases value
          exact itemOk
      | _ => cases value
  | list nodes =>
      cases item with
      | list others =>
          cases value
          exact itemOk
      | _ => cases value

theorem list_iff (related : Related sys spec) {idx : Nat} {key : Bytes} {nodes : List Bytes} :
    fkDictGet dbDictEop (sys.svr.db idx) key = some (.list nodes) ↔
      spec.tables idx key = some (.list nodes) := by
  constructor
  · intro found
    have values := (related.tables idx).get key
    rw [show (sys.svr.spaces idx).values key = some (.list nodes) from congrArg
      (Option.map FkItem.value) found] at values
    obtain ⟨entry, held, value⟩ := Option.map_eq_some_iff.mp values.symm
    cases entry with
    | str bytes => cases value
    | list others =>
        cases value
        exact held
  · intro held
    obtain ⟨item, found, value⟩ := related.item held
    cases item with
    | list others =>
        cases value
        exact found
    | _ => cases value

theorem setConn (related : Related sys spec) (client : Nat) (conn : Option FkConnOut) :
    Related (sys.setConn client conn) (spec.select client (conn.map FkConnOut.dbIdx)) where
  tables := related.tables
  selected := by
    intro other
    change (Function.update sys.conns client conn other).map FkConnOut.dbIdx =
      Function.update spec.selected client (conn.map FkConnOut.dbIdx) other
    by_cases same : other = client
    · rw [same, Function.update_self, Function.update_self]
    · rw [Function.update_of_ne same, Function.update_of_ne same]
      exact related.selected other

/-- A command of a client that is connected. -/
theorem command {out : FkConnOut} (related : Related sys spec) (sound : sys.Sound)
    (admitted : Admitted args) (listed : (cmdOf args).listed = true)
    (connected : sys.conns client = some out)
    (accepted : Accepted fkCmdEval sys (.command client args)) :
    ∃ next, sys.step fkCmdEval maxWbuf (.command client args) = some next ∧
      Related next (spec.step sys.svr.dbcnt (.command client args)) ∧
      ((∀ reply, spec.reply sys.svr.dbcnt (.command client args) = some reply →
        Replied sys next reply (.command client args)) ↔ ShortList sys (.command client args)) := by
  obtain ⟨answer, wbuf, after, ran, queued, leaves, stepped⟩ :=
    FkSystem.command_accepted admitted sound connected accepted
  have idx : spec.selected client = some out.dbIdx := by
    rw [← related.selected, connected]
    rfl
  obtain ⟨other, same, shows, calls⟩ := @run_shows sys.svr.dbcnt (Work.clockOn ⟨sys.svr, out⟩) _ _ _
    (related.tables out.dbIdx) listed
  rw [Work.answer, same] at ran
  obtain rfl := Option.some.inj ran
  have spaces : after.svr.spaces = (cmdOf args).after sys.svr.dbcnt out.dbIdx sys.svr.spaces
      other.space :=
    leaves.holds.spaces_eq
  refine ⟨_, stepped, ?_, ?_⟩
  · have moved : Related { sys with svr := (after.log (entries fkCmdEval ⟨sys.svr, out⟩ args)).svr }
        ⟨Spec.after sys.svr.dbcnt out.dbIdx spec.tables
          ((spec.tables out.dbIdx).apply sys.svr.dbcnt (cmdOf args)).2 (cmdOf args),
          spec.selected⟩ := by
      refine ⟨fun wanted => ?_, related.selected⟩
      change (after.svr.spaces wanted).Shows _
      rw [spaces]
      exact after_shows (cmdOf args) related.tables shows wanted
    have selects : (some (after.withWbuf wbuf).out).map FkConnOut.dbIdx =
        some ((cmdOf args).selects sys.svr.dbcnt out.dbIdx) := congrArg some leaves.idx
    have both := moved.setConn client (some (after.withWbuf wbuf).out)
    rw [selects] at both
    rw [Spec.step, idx]
    exact both
  · have range := @apply_inRange sys.svr.dbcnt _ _ listed
      (fun key entry held => related.short sound.ok held :
        ∀ key entry, spec.tables out.dbIdx key = some entry → _)
      admitted.width
    have reply : spec.reply sys.svr.dbcnt (.command client args) =
        some ((spec.tables out.dbIdx).apply sys.svr.dbcnt (cmdOf args)).1 := by
      rw [Spec.reply, idx]
      rfl
    rw [calls] at queued
    rw [reply]
    constructor
    · intro replied conn key nodes here llen found
      rw [connected] at here
      cases here
      exact range.mp (replied _ rfl).1 key nodes llen (related.list_iff.mp found)
    · intro small term known
      cases known
      refine ⟨range.mpr fun key nodes llen held => ?_, out, _, connected,
        Function.update_self .., queued⟩
      exact small out key nodes connected llen (related.list_iff.mpr held)

/-- The step lemma: the relation is kept, and the reply agrees unless a list is too long. -/
theorem step (related : Related sys spec) (sound : sys.Sound) {event : Event}
    (admitted : event.Admitted) (listed : event.Listed) (accepted : Accepted fkCmdEval sys event) :
    ∃ next, sys.step fkCmdEval maxWbuf event = some next ∧
      Related next (spec.step sys.svr.dbcnt event) ∧
      ((∀ reply, spec.reply sys.svr.dbcnt event = some reply → Replied sys next reply event) ↔
        ShortList sys event) := by
  cases event with
  | connect client => exact ⟨_, rfl, related.setConn client _, iff_of_true nofun trivial⟩
  | command client args =>
      cases connected : sys.conns client with
      | some out => exact related.command sound admitted listed connected accepted
      | none =>
          have idle : spec.selected client = none := by
            rw [← related.selected, connected]
            rfl
          refine ⟨sys, ?_, ?_, iff_of_true ?_ ?_⟩
          · change sys.command fkCmdEval client args = some sys
            rw [FkSystem.command, connected]
          · rw [Spec.step, idle]
            exact related
          · rw [Spec.reply, idle]
            nofun
          · intro out key nodes here
            rw [connected] at here
            cases here
  | sent client count =>
      refine ⟨_, rfl, ?_, iff_of_true nofun trivial⟩
      have kept := related.setConn client ((sys.conns client).map fun out =>
        { out with wbuf := (out.wbuf.fkBufLowInc count).fkBufShrink })
      rw [Option.map_map, show (FkConnOut.dbIdx ∘ fun out : FkConnOut => { out with
        wbuf := (out.wbuf.fkBufLowInc count).fkBufShrink }) = FkConnOut.dbIdx from rfl,
        related.selected, Spec.select, Function.update_eq_self] at kept
      exact kept
  | close client => exact ⟨_, rfl, related.setConn client none, iff_of_true nofun trivial⟩

end Related

end Step

/-! ## Every run -/

section Run

variable {fkCmdEval : Handler} {maxWbuf : Nat} {sys : FkSystem} {spec : Spec} {events : List Event}

theorem fkSystemInit_related (dbcnt : Nat) (blogOn : Bool) (clock : Nat → Int)
    (junk : Nat → UInt8) :
    Related (fkSystemInit dbcnt blogOn clock junk) Spec.init where
  tables := by
    intro idx
    refine ⟨funext fun key => ?_, funext fun key => ?_⟩
    · change dbMap fkDictCreate key = none
      rw [dbMap, fkDictCreate, fkDictGet_init dbDictEop_lawful]
      rfl
    · change (fkDictGet dbDictEop fkDictCreate key).bind FkItem.number? = none
      rw [fkDictCreate, fkDictGet_init dbDictEop_lawful]
      rfl
  selected := fun _ => rfl

theorem simulates_iff_along (positive : 0 < sys.svr.dbcnt) (sound : sys.Sound)
    (related : Related sys spec) (admitted : ∀ event ∈ events, event.Admitted)
    (listed : ∀ event ∈ events, event.Listed)
    (accepted : Along fkCmdEval maxWbuf (Accepted fkCmdEval) sys events) :
    Simulates fkCmdEval maxWbuf sys spec events ↔ Along fkCmdEval maxWbuf ShortList sys events := by
  induction events generalizing sys spec with
  | nil => exact iff_of_true related trivial
  | cons event rest ih =>
      obtain ⟨accepts, later⟩ := accepted
      have first := admitted event (List.mem_cons_self ..)
      obtain ⟨next, stepped, kept, replied⟩ := @Related.step _ maxWbuf _ _ related sound _ first
        (listed event (List.mem_cons_self ..)) accepts
      obtain ⟨soundNext, dbcnt⟩ := FkSystem.step_sound positive first sound stepped
      have rest := ih (by rw [dbcnt]; exact positive) soundNext kept
        (fun other member => admitted other (List.mem_cons_of_mem _ member))
        (fun other member => listed other (List.mem_cons_of_mem _ member)) (later next stepped)
      constructor
      · rintro ⟨_, other, same, replies, simulates⟩
        rw [stepped] at same
        cases same
        refine ⟨replied.mp replies, fun another again => ?_⟩
        rw [stepped] at again
        cases again
        exact rest.mp simulates
      · rintro ⟨small, along⟩
        exact ⟨related, next, stepped, replied.mpr small, rest.mpr (along next stepped)⟩

/-- A run of string and list commands from empty databases, with accepted replies. -/
theorem fkSystem_simulates_iff {dbcnt : Nat} {blogOn : Bool} {clock : Nat → Int}
    {junk : Nat → UInt8} (positive : 0 < dbcnt) (admitted : ∀ event ∈ events, event.Admitted)
    (listed : ∀ event ∈ events, event.Listed)
    (accepted : Along fkCmdEval maxWbuf (Accepted fkCmdEval)
      (fkSystemInit dbcnt blogOn clock junk) events) :
    Simulates fkCmdEval maxWbuf (fkSystemInit dbcnt blogOn clock junk) Spec.init events ↔
      Along fkCmdEval maxWbuf ShortList (fkSystemInit dbcnt blogOn clock junk) events :=
  simulates_iff_along positive (fkSystemInit_sound dbcnt blogOn clock junk)
    (fkSystemInit_related dbcnt blogOn clock junk) admitted listed accepted

end Run

/-- Two clients and two databases. -/
def twoClients : List Event :=
  [.connect 0, .connect 1, .command 0 [ascii "SET", ascii "k", ascii "v"],
    .command 1 [ascii "SELECT", ascii "1"], .command 1
      [ascii "LPUSH", ascii "k", ascii "a", ascii "b"], .command 0 [ascii "GET", ascii "k"],
    .command 1 [ascii "LPOP", ascii "k"], .command 1 [ascii "DEL", ascii "k", ascii "k"]]

/-- The event is no `LLEN`. -/
def Event.unmeasured : Event → Bool
  | .command _ args =>
      match cmdOf args with
      | .llen _ => false
      | _ => true
  | _ => true

theorem shortList_of_unmeasured {event : Event} (unmeasured : event.unmeasured = true)
    (sys : FkSystem) :
    ShortList sys event := by
  cases event with
  | command client args =>
      intro out key nodes _ asked
      rw [Event.unmeasured, asked] at unmeasured
      cases unmeasured
  | _ => trivial

theorem fkSystem_simulates_two_clients :
    Simulates (fun _ => Act.fault) 1024 (fkSystemInit 2 false (fun _ => 0) (fun _ => 0)) Spec.init
      twoClients := by
  have accepted : Along (fun _ => Act.fault) 1024 (Accepted fun _ => Act.fault)
      (fkSystemInit 2 false (fun _ => 0) (fun _ => 0)) twoClients := by decide +kernel
  have unmeasured : ∀ event ∈ twoClients, event.unmeasured = true := by decide +kernel
  exact (fkSystem_simulates_iff (by decide) (by decide +kernel) (by decide +kernel) accepted).mpr
    (along_of_forall (fun event member => shortList_of_unmeasured (unmeasured event member)) _)

/-! ## A list that is too long -/

/-- A client that connects, pushes one node and leaves, again and again. -/
def pushRun : Nat → List Event → List Event
  | 0, rest => rest
  | count + 1, rest =>
      .connect 0 :: .command 0 [ascii "LPUSH", ascii "l", ascii "x"] :: .close 0 ::
        pushRun count rest

/-- Then it asks for the length. -/
def llenRun (count : Nat) : List Event :=
  pushRun count [.connect 0, .command 0 [ascii "LLEN", ascii "l"]]

/-- The list has so many nodes. -/
structure Pushed (count : Nat) (sys : FkSystem) : Prop where
  sound : sys.Sound
  positive : 0 < sys.svr.dbcnt
  nodes : ∃ nodes : List Bytes, nodes.length = count ∧
    ((sys.svr.spaces 0).values (ascii "l") = some (.list nodes) ∨
      (count = 0 ∧ (sys.svr.spaces 0).values (ascii "l") = none))

/-- An integer fits into a new write buffer. -/
theorem queueAll_fresh (junk : Nat → UInt8) (number : Int) :
    ∃ wbuf, queueAll junk (Reply.int number).calls (fkConnCreate .real 1024).wbuf = .ok
      () wbuf := by
  have digits := fkUtilDecimalDigit_le number
  have spec := queueAll_reserve junk (Reply.int number).calls (fkConnCreate .real 1024).wbuf
  have room : (fkConnCreate .real 1024).wbuf.load.reserveAll 1024 [(Rsp.int number).len] =
      some ⟨16, 0 + (Rsp.int number).len⟩ := by
    have fits : 0 + (Rsp.int number).len ≤ 16 := by
      rw [Rsp.len]
      omega
    rw [Space.reserveAll, show Space.reserve 1024 (fkConnCreate .real 1024).wbuf.load
      (Rsp.int number).len = some ⟨16, 0 + (Rsp.int number).len⟩ from if_pos fits]
    rfl
  rw [show (fkConnCreate .real 1024).wbuf.load.reserveAll (fkConnCreate .real 1024).wbuf.highwat
    ((Reply.int number).calls.map Rsp.len) = _ from room] at spec
  obtain ⟨wbuf, called, _⟩ := spec
  exact ⟨wbuf, called⟩

/-- The server with a new client. -/
def FkSystem.ready (sys : FkSystem) : FkSystem :=
  sys.setConn 0 (some (fkConnCreate .real 1024).toFkConnOut)

theorem FkSystem.ready_conn (sys : FkSystem) :
    sys.ready.conns 0 = some (fkConnCreate .real 1024).toFkConnOut := by
  change Function.update sys.conns 0 (some (fkConnCreate .real 1024).toFkConnOut) 0 = _
  rw [Function.update_self]

namespace Pushed

variable {count : Nat} {sys : FkSystem}

theorem ready_sound (pushed : Pushed count sys) : sys.ready.Sound :=
  (@FkSystem.step_sound (fun _ => Act.fault) 1024 sys _ (.connect 0) pushed.positive trivial
    pushed.sound rfl).1

/-- The new client pushes one more node. -/
theorem answer (pushed : Pushed count sys) :
    ∃ nodes : List Bytes, nodes.length = count + 1 ∧
      Work.answer ⟨sys.ready.svr, (fkConnCreate .real 1024).toFkConnOut⟩ sys.ready.svr.spaces
        (cmdOf [ascii "LPUSH", ascii "l", ascii "x"]) =
          some ⟨.int 1, (sys.svr.spaces 0).put (ascii "l") (.list nodes), 0⟩ := by
  have ran : ∀ (clock : Nat → Int) (space : Keyspace) (nodes : List Bytes),
      space.values (ascii "l") = some (.list nodes) ∨
        (nodes = [] ∧ space.values (ascii "l") = none) →
        (Cmd.push .head (ascii "l") [ascii "x"]).run sys.svr.dbcnt clock space =
          some ⟨.int 1, space.put (ascii "l") (.list (ascii "x" :: nodes)), 0⟩ := by
    intro clock space nodes held
    rw [Cmd.run]
    rcases held with held | ⟨rfl, absent⟩
    · rw [held]
      rfl
    · rw [absent]
      rfl
  obtain ⟨nodes, length, held⟩ := pushed.nodes
  refine ⟨ascii "x" :: nodes, congrArg Nat.succ length, ran _ (sys.svr.spaces 0) nodes ?_⟩
  refine held.imp_right fun absent => ⟨List.length_eq_zero_iff.mp ?_, absent.2⟩
  rw [length, absent.1]

theorem push (pushed : Pushed count sys) :
    Accepted (fun _ => Act.fault) sys.ready (.command 0 [ascii "LPUSH", ascii "l", ascii "x"]) ∧
      ∀ next, sys.ready.command (fun _ => Act.fault) 0
        [ascii "LPUSH", ascii "l", ascii "x"] = some next →
        Pushed (count + 1) (next.setConn 0 none) := by
  have sound := pushed.ready_sound
  have admitted : Admitted [ascii "LPUSH", ascii "l", ascii "x"] := by decide +kernel
  obtain ⟨wbuf, queued⟩ := queueAll_fresh sys.svr.junk 1
  obtain ⟨nodes, length, ran⟩ := pushed.answer
  have accepted := @accepted_of_queued (fun _ => Act.fault) sys.ready 0 _ _ _ wbuf admitted sound
    sys.ready_conn ran queued
  refine ⟨accepted, fun next stepped => ?_⟩
  obtain ⟨pushedSound, dbcnt⟩ :=
    @FkSystem.step_sound (fun _ => Act.fault) 1024 sys.ready next (.command 0 _) pushed.positive
      admitted sound stepped
  obtain ⟨answer, _, after, again, _, leaves, finished⟩ :=
    FkSystem.command_accepted admitted sound sys.ready_conn accepted
  rw [ran] at again
  cases again
  rw [finished] at stepped
  cases stepped
  have positive : 0 < after.svr.dbcnt := by
    rw [leaves.dbcnt]
    exact pushed.positive
  have closed := (@FkSystem.step_sound (fun _ => Act.fault) 1024 _ _ (.close 0) positive trivial
    pushedSound rfl).1
  refine ⟨closed, positive, nodes, length, .inl ?_⟩
  change (after.svr.spaces 0).values (ascii "l") = _
  rw [leaves.holds.spaces_eq]
  change (Function.update sys.svr.spaces 0 _ 0).values (ascii "l") = _
  rw [Function.update_self]
  change Function.update (sys.svr.spaces 0).values (ascii "l") (some (.list nodes)) (ascii "l") = _
  rw [Function.update_self]

theorem llen (pushed : Pushed count sys) :
    Accepted (fun _ => Act.fault) sys.ready (.command 0 [ascii "LLEN", ascii "l"]) ∧
      (2 ^ 31 ≤ count → ¬ ShortList sys.ready (.command 0 [ascii "LLEN", ascii "l"])) := by
  have command : cmdOf [ascii "LLEN", ascii "l"] = .llen (ascii "l") := rfl
  have admitted : Admitted [ascii "LLEN", ascii "l"] := by decide +kernel
  obtain ⟨nodes, length, held⟩ := pushed.nodes
  refine ⟨?_, ?_⟩
  · have reply : ∃ number, Work.answer ⟨sys.ready.svr, (fkConnCreate .real 1024).toFkConnOut⟩
        sys.ready.svr.spaces (cmdOf [ascii "LLEN", ascii "l"]) = some
          ⟨.int number, sys.svr.spaces 0, 0⟩ := by
      rw [command, Work.answer, Cmd.run]
      change ∃ number, some (Answer.mk (llenReply ((sys.svr.spaces 0).values (ascii "l"))) _ _) = _
      rcases held with held | ⟨_, absent⟩
      · rw [held]
        exact ⟨_, rfl⟩
      · rw [absent]
        exact ⟨_, rfl⟩
    obtain ⟨number, ran⟩ := reply
    obtain ⟨wbuf, queued⟩ := queueAll_fresh sys.svr.junk number
    exact accepted_of_queued admitted pushed.ready_sound sys.ready_conn ran queued
  · intro long short
    rcases held with held | ⟨none, _⟩
    · obtain ⟨item, found, value⟩ := Option.map_eq_some_iff.mp held
      cases item with
      | list others =>
          cases value
          have small := short _ (ascii "l") nodes sys.ready_conn command found
          omega
      | _ => cases value
    · omega

end Pushed

section PushRun

variable {rest : List Event} {sys : FkSystem} {before : Nat}

theorem pushRun_accepted (count : Nat) (pushed : Pushed before sys)
    (last : ∀ final, Pushed (before + count) final →
      Along (fun _ => Act.fault) 1024 (Accepted fun _ => Act.fault) final rest) :
    Along (fun _ => Act.fault) 1024 (Accepted fun _ => Act.fault) sys (pushRun count rest) := by
  induction count generalizing sys before with
  | zero => exact last sys pushed
  | succ count ih =>
      refine ⟨trivial, fun ready connected => ?_⟩
      cases connected
      refine ⟨pushed.push.1, fun next stepped => ⟨trivial, fun left closed => ?_⟩⟩
      cases closed
      refine ih (pushed.push.2 next stepped) fun final reached => last final ?_
      rwa [Nat.add_right_comm, Nat.add_assoc] at reached

theorem pushRun_short (count : Nat) (pushed : Pushed before sys)
    (along : Along (fun _ => Act.fault) 1024 ShortList sys (pushRun count rest)) :
    ∃ final, Pushed (before + count) final ∧
      Along (fun _ => Act.fault) 1024 ShortList final rest := by
  induction count generalizing sys before with
  | zero => exact ⟨sys, pushed, along⟩
  | succ count ih =>
      obtain ⟨_, _, _, later⟩ :=
        FkSystem.command_accepted (by decide +kernel) pushed.ready_sound sys.ready_conn
          pushed.push.1
      obtain ⟨_, _, _, stepped⟩ := later
      obtain ⟨final, reached, short⟩ :=
        ih (pushed.push.2 _ stepped) ((((along.2 _ rfl).2 _ stepped).2 _ rfl))
      rw [Nat.add_right_comm, Nat.add_assoc] at reached
      exact ⟨final, reached, short⟩

end PushRun

/-- As long as the length of the list is not an `int`, the run does not simulate the
specification. -/
theorem llenRun_fails {count : Nat} (long : 2 ^ 31 ≤ count) :
    (∀ event ∈ llenRun count, event.Admitted ∧ event.Listed) ∧
      Along (fun _ => Act.fault) 1024 (Accepted fun _ => Act.fault)
        (fkSystemInit 1 false (fun _ => 0) (fun _ => 0)) (llenRun count) ∧
      ¬ Simulates (fun _ => Act.fault) 1024
        (fkSystemInit 1 false (fun _ => 0) (fun _ => 0)) Spec.init (llenRun count) := by
  have sound := fkSystemInit_sound 1 false (fun _ => 0) (fun _ => 0)
  have related := fkSystemInit_related 1 false (fun _ => 0) (fun _ => 0)
  have start : Pushed 0 (fkSystemInit 1 false (fun _ => 0) (fun _ => 0)) :=
    ⟨sound, by decide, [], rfl, .inr ⟨rfl, (related.tables 0).get _⟩⟩
  have each : ∀ event ∈ llenRun count, event.Admitted ∧ event.Listed := by
    unfold llenRun
    generalize count = some
    induction some with
    | zero => decide +kernel
    | succ some ih =>
        rw [pushRun]
        simp only [List.forall_mem_cons]
        exact ⟨⟨trivial, trivial⟩, by decide +kernel, ⟨trivial, trivial⟩, ih⟩
  have accepted := @pushRun_accepted [.connect 0, .command 0 [ascii "LLEN", ascii "l"]] _ _ count
    start fun final pushed => by
    refine ⟨trivial, fun ready connected => ?_⟩
    cases connected
    exact ⟨pushed.llen.1, fun _ _ => trivial⟩
  refine ⟨each, accepted, fun simulates => ?_⟩
  have along :=
    (simulates_iff_along (by decide) sound related (fun event member => (each event member).1)
      (fun event member => (each event member).2) accepted).mp simulates
  obtain ⟨final, pushed, _, short⟩ := pushRun_short count start along
  exact pushed.llen.2 (by omega) (short _ rfl).1

/-- After `2 ^ 31` pushes `LLEN` answers a negative number. -/
theorem fkSystem_llen_overflows :
    (∀ event ∈ llenRun (2 ^ 31), event.Admitted ∧ event.Listed) ∧
      Along (fun _ => Act.fault) 1024 (Accepted fun _ => Act.fault)
        (fkSystemInit 1 false (fun _ => 0) (fun _ => 0)) (llenRun (2 ^ 31)) ∧
      ¬ Simulates (fun _ => Act.fault) 1024
        (fkSystemInit 1 false (fun _ => 0) (fun _ => 0)) Spec.init
        (llenRun (2 ^ 31)) := llenRun_fails (Nat.le_refl _)

end Freekick
