import Freekick.Lib.Footprint
import Freekick.Store.Isolation
import Freekick.Store.OneKey

/-!
# Clients on different keys

Every command reaches some cells: keys of the database it is executed on, with their values
and deadlines.  It depends on nothing else that is stored, and changes nothing else.  So
clients whose commands reach cells of their own get the replies that they would get
alone, however the commands of all clients are interleaved.
-/

namespace Freekick

open Lib.Call Lib.Footprint Set

/-! ## Cells -/

namespace Keyspace

/-- The value and the deadline of every key. -/
def cells (space : Keyspace) : Bytes → Option Value × Option Int :=
  fun key => (space.values key, space.deadlines key)

def ofCells (cells : Bytes → Option Value × Option Int) : Keyspace :=
  ⟨fun key => (cells key).1, fun key => (cells key).2⟩

@[simp]
theorem cells_ofCells (store : Bytes → Option Value × Option Int) : (ofCells store).cells = store :=
  rfl

@[simp]
theorem values_ofCells (store : Bytes → Option Value × Option Int) (key : Bytes) :
    (ofCells store).values key = (store key).1 := rfl

@[simp]
theorem deadlines_ofCells (store : Bytes → Option Value × Option Int) (key : Bytes) :
    (ofCells store).deadlines key = (store key).2 := rfl

variable (space : Keyspace) (key : Bytes)

theorem cells_put (value : Value) :
    (space.put key value).cells = Function.update space.cells key
    (some value, space.deadlines key) := by
  funext other
  by_cases same : other = key
  · subst same
    simp [cells, put]
  · simp [cells, put, Function.update_of_ne same]

theorem values_put_self (value : Value) : (space.put key value).values key = some value :=
  Function.update_self ..

theorem cells_setDeadline (deadline : Int) :
    (space.setDeadline key deadline).cells = Function.update space.cells key
    (space.values key, some deadline) := by
  funext other
  by_cases same : other = key
  · subst same
    simp [cells, setDeadline]
  · simp [cells, setDeadline, Function.update_of_ne same]

theorem cells_remove : (space.remove key).cells = Function.update space.cells key (none, none) := by
  funext other
  by_cases same : other = key
  · subst same
    simp [cells, remove, dropValue, dropDeadline]
  · simp [cells, remove, dropValue, dropDeadline, Function.update_of_ne same]

end Keyspace

namespace Cmd

/-- The keys that a command reaches in its database. -/
def reached : Cmd → Set Bytes
  | set key _ | setnx key _ | setex key _ _ | get key | existing key | hset key _ _ | hget key _ |
    push _ key _
  | pop _ key | llen key | zadd key _ => {key}
  | mset pairs => {key | key ∈ pairs.map Prod.fst}
  | mget keys | del keys => {key | key ∈ keys}
  | flushdb | flushall => univ
  | save | select _ | refused _ => ∅

/-- The command on the cells of its database. -/
def act (dbcnt : Nat) (clock : Nat → Int) (cmd : Cmd) (store : Bytes → Option Value × Option Int) :
    Option ((Reply × Nat) × (Bytes → Option Value × Option Int)) :=
  (cmd.run dbcnt clock (.ofCells store)).map fun answer =>
    ((answer.reply, answer.readings), answer.space.cells)

/-! ## Commands are local to their keys -/

section Local

variable {dbcnt : Nat} {clock : Nat → Int} {cmd : Cmd} {key : Bytes}

theorem Acts.local_act {does : Option Value → Reply × Option Value} (acts : cmd.Acts key does) :
    Local {key} (cmd.act dbcnt clock) := by
  apply local_cell key fun cell => some (((does cell.1).1, 0), ((does cell.1).2 <|> cell.1, cell.2))
  intro store
  rw [act, acts.run]
  cases written : (does (store key).1).2 with
  | none => simp [Keyspace.write, written]
  | some value => simp [Keyspace.write, written, Keyspace.cells_put]

theorem set_local_act (value : Bytes) : Local {key} ((set key value).act dbcnt clock) := by
  apply local_cell key fun cell =>
    some ((Reply.status fkRspOk, 0), (some (Value.str value), cell.2))
  intro store
  simp [act, run, Keyspace.cells_put]

theorem setex_local_act (exp value : Bytes) :
    Local {key} ((setex key exp value).act dbcnt clock) := by
  apply local_cell key fun _ => some ((Reply.status fkRspOk, 1),
    (some (Value.str value), some (toInt64 (strtol exp * 1000 + clock 0))))
  intro store
  simp [act, run, Keyspace.cells_setDeadline, Keyspace.cells_put, Keyspace.values_put_self]

theorem zadd_local_act (count : Nat) : Local {key} ((zadd key count).act dbcnt clock) := by
  apply local_cell key fun cell => cell.1.map fun _ =>
    ((if count % 2 ≠ 0 then Reply.error fkRspArgcErr else .int (count / 2 : Nat), 0), cell)
  intro store
  rw [act, run]
  cases held : (store key).1 with
  | none => simp [held]
  | some value => simp [held]

/-- A look finds what is stored, or an expired key that it removes. -/
theorem look_local (clock : Nat → Int) (key : Bytes) :
    Local {key} fun store => some ((((Keyspace.ofCells store).look clock key).found,
      ((Keyspace.ofCells store).look clock key).readings),
      ((Keyspace.ofCells store).look clock key).left.cells) := by
  apply local_cell key fun cell => some (cell.2.elim ((cell.1, 0), cell) fun deadline =>
    if deadline < clock 0 then ((none, 1), (none, none)) else ((cell.1, 1), cell))
  intro store
  unfold Keyspace.look
  cases limit : (store key).2 with
  | none => simp [limit]
  | some deadline =>
      by_cases late : deadline < clock 0
      · simp [limit, late, Keyspace.cells_remove]
      · simp [limit, late]

theorem lookAll_local (clock : Nat → Int) (keys : List Bytes) :
    Local {key | key ∈ keys} fun store =>
      some ((((Keyspace.ofCells store).lookAll clock keys).found,
        ((Keyspace.ofCells store).lookAll clock keys).readings),
        ((Keyspace.ofCells store).lookAll clock keys).left.cells) := by
  induction keys generalizing clock with
  | nil => exact local_pure _ ([], 0)
  | cons key rest ih =>
      have sub : {other | other ∈ rest} ⊆ {other | other ∈ key :: rest} :=
        fun _ => List.mem_cons_of_mem _
      have here : {key} ⊆ {other | other ∈ key :: rest} := by simp
      exact ((look_local clock key).mono here).bind fun found =>
        ((ih fun reading => clock (found.2 + reading)).mono sub).map fun others =>
          (found.1 :: others.1, found.2 + others.2)

theorem putAll_local (pairs : List (Bytes × Bytes)) :
    Local {key | key ∈ pairs.map Prod.fst} fun store =>
      some ((), ((Keyspace.ofCells store).putAll pairs).cells) := by
  induction pairs with
  | nil => exact local_pure _ ()
  | cons pair rest ih =>
      have first : Local {pair.1} fun store =>
          some ((), ((Keyspace.ofCells store).put pair.1 (.str pair.2)).cells) :=
        (@set_local_act 0 (fun _ => 0) pair.1 pair.2).map fun _ => ()
      have here : {pair.1} ⊆ {key | key ∈ (pair :: rest).map Prod.fst} := by simp
      exact (first.mono here).bind fun _ => ih.mono fun _ => List.mem_cons_of_mem _

theorem del_local_act (keys : List Bytes) :
    Local {key | key ∈ keys} ((del keys).act dbcnt clock) := by
  constructor
  · intro store answer after ran key outside
    cases ran
    change key ∉ keys at outside
    simp [Keyspace.cells, Keyspace.drop, outside]
  · intro store other answer after same ran
    have count : (Keyspace.ofCells store).present keys = (Keyspace.ofCells other).present keys := by
      unfold Keyspace.present
      congr 1
      apply Finset.filter_congr
      intro key member
      simp [same (List.mem_toFinset.mp member)]
    cases ran
    refine ⟨((Keyspace.ofCells other).drop keys).cells, ?_, ?_⟩
    · simp [act, run, count]
    · intro key inside
      have held := same inside
      change key ∈ keys at inside
      simp [Keyspace.cells, Keyspace.drop, inside, held]

theorem local_act (cmd : Cmd) : Local cmd.reached (cmd.act dbcnt clock) := by
  cases cmd with
  | set key value => exact set_local_act value
  | setnx key value => exact (acts_setnx key value).local_act
  | setex key exp value => exact setex_local_act exp value
  | mset pairs => exact (putAll_local pairs).map fun _ => (Reply.status fkRspOk, 0)
  | mget keys =>
      exact (lookAll_local clock keys).map fun looked =>
        (Reply.multi (looked.1.map fun value => value.bind Value.bytes?), looked.2)
  | get key => exact (look_local clock key).map fun looked => (getReply looked.1, looked.2)
  | del keys => exact del_local_act keys
  | flushdb => exact local_univ _
  | existing key => exact (acts_existing key).local_act
  | flushall => exact local_univ _
  | hset hkey key value => exact (acts_hset hkey key value).local_act
  | hget hkey key => exact (acts_hget hkey key).local_act
  | push pos key nodes => exact (acts_push pos key nodes).local_act
  | pop pos key => exact (acts_pop pos key).local_act
  | llen key => exact (acts_llen key).local_act
  | save => exact local_pure _ (Reply.status fkRspOk, 0)
  | select text =>
      exact local_pure _
        (if OutOfRange dbcnt text then Reply.error fkRspErr else .status fkRspOk, 0)
  | zadd key count => exact zadd_local_act count
  | refused message => exact local_pure _ (Reply.error message, 0)

end Local

end Cmd

/-! ## Cells of all databases -/

def cellsOf (spaces : Nat → Keyspace) : Nat × Bytes → Option Value × Option Int :=
  fun cell => (spaces cell.1).cells cell.2

def spacesOf (table : Nat × Bytes → Option Value × Option Int) : Nat → Keyspace := fun idx =>
  .ofCells fun key => table (idx, key)

theorem spacesOf_cellsOf (spaces : Nat → Keyspace) : spacesOf (cellsOf spaces) = spaces := rfl

theorem cellsOf_update (table : Nat × Bytes → Option Value × Option Int) (idx : Nat)
    (own : Keyspace) :
    cellsOf (Function.update (spacesOf table) idx own) = fun cell => if cell.1 = idx then
      own.cells cell.2 else table cell := by
  funext cell
  by_cases here : cell.1 = idx
  · simp [cellsOf, here]
  · simp [cellsOf, here, spacesOf]

namespace Cmd

/-- The cells that a command reaches on a database. -/
def reach (dbcnt idx : Nat) (cmd : Cmd) : Set (Nat × Bytes) :=
  if cmd = .flushall then {cell | cell.1 < dbcnt} else {idx} ×ˢ cmd.reached

/-- The command on all cells. -/
def effect (dbcnt : Nat) (clock : Nat → Int) (idx : Nat) (cmd : Cmd)
    (table : Nat × Bytes → Option Value × Option Int) :
    Option ((Reply × Nat) × (Nat × Bytes → Option Value × Option Int)) :=
  (cmd.run dbcnt clock (spacesOf table idx)).map fun answer =>
    ((answer.reply, answer.readings), cellsOf (cmd.after dbcnt idx (spacesOf table) answer.space))

theorem after_of_ne {cmd : Cmd} (own : cmd ≠ .flushall) (dbcnt idx : Nat) (spaces : Nat → Keyspace)
    (space : Keyspace) :
    cmd.after dbcnt idx spaces space = Function.update spaces idx space := by
  cases cmd with
  | flushall => exact (own rfl).elim
  | _ => rfl

theorem flushall_local_effect (dbcnt : Nat) (clock : Nat → Int) (idx : Nat) :
    Local {cell | cell.1 < dbcnt} (flushall.effect dbcnt clock idx) := by
  constructor
  · intro table answer after ran cell outside
    cases ran
    change ¬ cell.1 < dbcnt at outside
    simp [cellsOf, after, outside, spacesOf]
  · intro table other answer after same ran
    cases ran
    refine ⟨_, rfl, fun cell inside => ?_⟩
    change cell.1 < dbcnt at inside
    simp [cellsOf, after, inside]

theorem local_effect (dbcnt : Nat) (clock : Nat → Int) (idx : Nat) (cmd : Cmd) :
    Local (cmd.reach dbcnt idx) (cmd.effect dbcnt clock idx) := by
  unfold reach
  split
  · next all =>
      rw [all]
      exact flushall_local_effect dbcnt clock idx
  · next own =>
      have same : cmd.effect dbcnt clock idx = fun table =>
          (cmd.act dbcnt clock fun key => table (idx, key)).map fun result =>
            (result.1, fun cell => if cell.1 = idx then result.2 cell.2 else table cell) := by
        funext table
        simp only [effect, act, after_of_ne own, cellsOf_update, Option.map_map]
        rfl
      rw [same]
      exact (local_act cmd).row idx

/-- What is left of a command reaches no more. -/
theorem reach_cut (cmd : Cmd) (count dbcnt idx : Nat) :
    (cmd.cut count).reach dbcnt idx ⊆ cmd.reach dbcnt idx := by
  cases cmd with
  | pop pos key =>
      rintro cell ⟨_, none⟩
      exact none.elim
  | mget keys =>
      rintro cell ⟨here, member⟩
      exact ⟨here, List.mem_of_mem_take member⟩
  | _ => exact Subset.rfl

variable {dbcnt idx : Nat} {clock : Nat → Int} {cmd : Cmd} {spaces other : Nat → Keyspace}
  {answer : Answer} {cells : Set (Nat × Bytes)}

theorem effect_of_run (ran : cmd.run dbcnt clock (spaces idx) = some answer) :
    cmd.effect dbcnt clock idx (cellsOf spaces) =
      some ((answer.reply, answer.readings),
        cellsOf (cmd.after dbcnt idx spaces answer.space)) := by
  rw [effect, spacesOf_cellsOf, ran]
  rfl

/-- Cells that a command does not reach. -/
theorem after_apart (ran : cmd.run dbcnt clock (spaces idx) = some answer)
    (apart : cmd.reach dbcnt idx ⊆ cellsᶜ) :
    EqOn (cellsOf (cmd.after dbcnt idx spaces answer.space)) (cellsOf spaces) cells :=
  (local_effect dbcnt clock idx cmd).apart apart (effect_of_run ran)

/-- The command where the cells that it reaches are the same. -/
theorem run_of_cells (ran : cmd.run dbcnt clock (spaces idx) = some answer)
    (inside : cmd.reach dbcnt idx ⊆ cells) (same : EqOn (cellsOf spaces) (cellsOf other) cells) :
    ∃ again, cmd.run dbcnt clock (other idx) = some again ∧ again.reply = answer.reply ∧
      again.readings = answer.readings ∧ EqOn (cellsOf (cmd.after dbcnt idx spaces answer.space))
        (cellsOf (cmd.after dbcnt idx other again.space)) cells := by
  obtain ⟨after, effected, agree⟩ :=
    ((local_effect dbcnt clock idx cmd).mono inside).follow same (effect_of_run ran)
  obtain ⟨again, found, known⟩ := Option.map_eq_some_iff.mp effected
  simp only [Prod.mk.injEq] at known
  obtain ⟨⟨reply, readings⟩, rfl⟩ := known
  exact ⟨again, found, reply, readings, agree⟩

end Cmd

/-! ## Clients that keep apart -/

def Event.client : Event → Nat
  | .connect client | .command client _ | .sent client _ | .close client => client

/-- The commands of these clients reach no cell outside, and those of the others no cell inside. -/
def Apart (mine : Nat → Bool) (cells : Set (Nat × Bytes)) (sys : FkSystem) : Event → Prop
  | .command client args => ∀ out, sys.conns client = some out →
      if mine client then (cmdOf args).reach sys.svr.dbcnt out.dbIdx ⊆ cells
      else (cmdOf args).reach sys.svr.dbcnt out.dbIdx ⊆ cellsᶜ
  | _ => True

/-- The replies to these clients are accepted. -/
def Heard (fkCmdEval : Handler) (mine : Nat → Bool) (sys : FkSystem) (event : Event) : Prop :=
  mine event.client = true → Accepted fkCmdEval sys event

/-- What is queued for one of these clients by an event. -/
def told (mine : Nat → Bool) (sys next : FkSystem) : Event → List (Nat × Bytes)
  | .command client _ => if mine client then [(client, queuedFor sys next client)] else []
  | _ => []

section Observe

variable (fkCmdEval : Handler) (maxWbuf : Nat) (mine : Nat → Bool)

/-- All that is queued for these clients in a run. -/
def toldIn : FkSystem → List Event → List (Nat × Bytes)
  | _, [] => []
  | sys, event :: rest =>
      match sys.step fkCmdEval maxWbuf event with
      | none => []
      | some next => told mine sys next event ++ toldIn next rest

/-- The readings of the clock that the commands of these clients take in a run. -/
def timesIn : FkSystem → List Event → List Int
  | _, [] => []
  | sys, event :: rest =>
      match sys.step fkCmdEval maxWbuf event with
      | none => []
      | some next => (if mine event.client then timesRead sys next else []) ++ timesIn next rest

end Observe

/-- A run of all clients beside a run of some of them, which will take these readings of the
clock. -/
structure Shares (mine : Nat → Bool) (cells : Set (Nat × Bytes)) (times : List Int)
    (full alone : FkSystem) : Prop where
  fullSound : full.Sound
  aloneSound : alone.Sound
  cells : EqOn (cellsOf full.svr.spaces) (cellsOf alone.svr.spaces) cells
  conns : ∀ client, mine client = true → alone.conns client = full.conns client
  dbcnt : alone.svr.dbcnt = full.svr.dbcnt
  junk : alone.svr.junk = full.svr.junk
  clock : ∀ reading < times.length, alone.svr.clock (alone.svr.readings + reading) =
    times.getD reading 0

section Step

variable {fkCmdEval : Handler} {maxWbuf : Nat} {mine : Nat → Bool} {cells : Set (Nat × Bytes)}
  {times later : List Int} {full alone next : FkSystem} {client : Nat} {event : Event}

theorem conns_setConn_other {base : FkSystem} {other : Nat} (conn : Option FkConnOut)
    (different : other ≠ client) :
    (base.setConn client conn).conns other = base.conns other := Function.update_of_ne different ..

theorem conns_setConn_self (base : FkSystem) (client : Nat) (conn : Option FkConnOut) :
    (base.setConn client conn).conns client = conn := Function.update_self ..

/-- A change of the full system that these clients do not see. -/
theorem Shares.of_unseen {svr : FkSvr} {conn : Option FkConnOut}
    (shares : Shares mine cells times full alone)
    (sound : (({ full with svr := svr }).setConn client conn).Sound) (foreign : mine client = false)
    (kept : EqOn (cellsOf svr.spaces) (cellsOf full.svr.spaces) cells)
    (dbcnt : svr.dbcnt = full.svr.dbcnt) (junk : svr.junk = full.svr.junk) :
    Shares mine cells times (({ full with svr := svr }).setConn client conn) alone where
  fullSound := sound
  aloneSound := shares.aloneSound
  cells := kept.trans shares.cells
  conns := by
    intro other own
    have different : other ≠ client := by
      rintro rfl
      rw [own] at foreign
      cases foreign
    rw [conns_setConn_other conn different]
    exact shares.conns other own
  dbcnt := shares.dbcnt.trans dbcnt.symm
  junk := shares.junk.trans junk.symm
  clock := shares.clock

/-- A step of another client. -/
theorem Shares.other (positive : 0 < full.svr.dbcnt) (shares : Shares mine cells times full alone)
    (admitted : event.Admitted) (apart : Apart mine cells full event)
    (foreign : mine event.client = false)
    (stepped : full.step fkCmdEval maxWbuf event = some next) :
    Shares mine cells times next alone := by
  have sound := (FkSystem.step_sound positive admitted shares.fullSound stepped).1
  have still : EqOn (cellsOf full.svr.spaces) (cellsOf full.svr.spaces) cells := eqOn_refl ..
  cases event with
  | connect client =>
      cases stepped
      exact shares.of_unseen sound foreign still rfl rfl
  | sent client count =>
      cases stepped
      exact shares.of_unseen sound foreign still rfl rfl
  | close client =>
      cases stepped
      exact shares.of_unseen sound foreign still rfl rfl
  | command client args =>
      have commanded := FkSystem.command_commanded admitted shares.fullSound.ok
        shares.fullSound.timed stepped
      change mine client = false at foreign
      cases commanded with
      | absent gone => exact shares
      | @refused out answer part count wbuf after connected ran queued cut leaves =>
          have outside := apart out connected
          rw [foreign, if_neg Bool.false_ne_true] at outside
          refine shares.of_unseen sound foreign ?_ leaves.dbcnt leaves.junk
          rw [leaves.holds.spaces_eq]
          exact Cmd.after_apart cut ((Cmd.reach_cut _ _ _ _).trans outside)
      | @done out answer wbuf after connected ran queued leaves =>
          have outside := apart out connected
          rw [foreign, if_neg Bool.false_ne_true] at outside
          refine shares.of_unseen sound foreign ?_ leaves.dbcnt leaves.junk
          rw [show (after.log (entries fkCmdEval ⟨full.svr, out⟩ args)).svr.spaces =
            _ from leaves.holds.spaces_eq]
          exact Cmd.after_apart ran outside

/-- Both systems change the connection of a client in the same way. -/
theorem Shares.of_conn {conn : Option FkConnOut} (shares : Shares mine cells times full alone)
    (fullSound : (full.setConn client conn).Sound)
    (aloneSound : (alone.setConn client conn).Sound) :
    Shares mine cells times (full.setConn client conn) (alone.setConn client conn) where
  fullSound := fullSound
  aloneSound := aloneSound
  cells := shares.cells
  conns := by
    intro other own
    by_cases same : other = client
    · rw [same, conns_setConn_self, conns_setConn_self]
    · rw [conns_setConn_other conn same, conns_setConn_other conn same]
      exact shares.conns other own
  dbcnt := shares.dbcnt
  junk := shares.junk
  clock := shares.clock

theorem length_timesRead (sys next : FkSystem) :
    (timesRead sys next).length = next.svr.readings - sys.svr.readings := by
  simp [timesRead]

/-- The clock of the second system, after a step that took the first of the readings. -/
theorem clock_behind {clock : Nat → Int} {start took : Nat} {first : List Int}
    (length : first.length = took)
    (shows : ∀ reading < (first ++ later).length,
      clock (start + reading) = (first ++ later).getD reading 0) :
    ∀ reading < later.length, clock (start + took + reading) = later.getD reading 0 := by
  intro reading inside
  have known := shows (took + reading) (by rw [List.length_append]; omega)
  rw [List.getD_append_right _ _ _ _ (by omega), length, Nat.add_sub_cancel_left,
    ← Nat.add_assoc] at known
  exact known

theorem timesRead_same {sys next : FkSystem} (same : next.svr = sys.svr) :
    timesRead sys next = [] := by
  simp [timesRead, same]

theorem timesRead_setConn (sys : FkSystem) (client : Nat) (conn : Option FkConnOut) :
    timesRead sys (sys.setConn client conn) = [] := timesRead_same rfl

/-- A command of one of these clients. -/
theorem Shares.own_command {args : List Bytes} (positive : 0 < full.svr.dbcnt)
    (shares : Shares mine cells (timesRead full next ++ later) full alone)
    (admitted : Admitted args) (apart : Apart mine cells full (.command client args))
    (own : mine client = true) (accepted : Accepted fkCmdEval full (.command client args))
    (stepped : full.command fkCmdEval client args = some next) :
    ∃ next', alone.command fkCmdEval client args = some next' ∧ Shares mine cells later next next' ∧
      queuedFor alone next' client = queuedFor full next client := by
  have fullNext := (@FkSystem.step_sound fkCmdEval 0 full next (.command client args) positive
    admitted shares.fullSound stepped).1
  have conns := shares.conns client own
  cases connected : full.conns client with
  | none =>
      rw [FkSystem.command, connected] at stepped
      cases stepped
      refine ⟨alone, ?_, ?_, ?_⟩
      · rw [FkSystem.command, conns, connected]
      · rwa [timesRead_same rfl, List.nil_append] at shares
      · rw [queuedFor, queuedFor, conns, connected]
  | some out =>
      obtain ⟨answer, wbuf, after, ran, queued, leaves, finished⟩ :=
        FkSystem.command_accepted admitted shares.fullSound connected accepted
      have known := Option.some.inj (stepped.symm.trans finished)
      have took : next.svr.readings = full.svr.readings + answer.readings := by
        rw [known]
        exact leaves.readings
      have inside := apart out connected
      rw [own, if_pos rfl] at inside
      have length : (timesRead full next).length = answer.readings := by
        rw [length_timesRead, took, Nat.add_sub_cancel_left]
      have clock := shares.clock
      -- the command takes the same readings and finds the same in its cells
      have timed : (cmdOf args).run full.svr.dbcnt (Work.clockOn ⟨alone.svr, out⟩)
          (full.svr.spaces out.dbIdx) = some answer := by
        refine Cmd.run_congr ran fun reading early => ?_
        refine (@timesRead_getD full next out answer.readings took reading early).trans ?_
        rw [show Work.clockOn ⟨alone.svr, out⟩ reading = alone.svr.clock
          (alone.svr.readings + reading) from rfl,
          clock reading (by rw [List.length_append, length]; omega),
          List.getD_append _ _ _ _ (by rw [length]; exact early)]
      obtain ⟨again, ranAgain, reply, readings, agree⟩ := Cmd.run_of_cells timed inside shares.cells
      rw [← shares.dbcnt] at ranAgain
      rw [← shares.junk, ← reply] at queued
      have connected' : alone.conns client = some out := conns.trans connected
      have accepted' := @accepted_of_queued fkCmdEval alone client args out again wbuf admitted
        shares.aloneSound connected' ranAgain queued
      obtain ⟨answer', wbuf', after', ran', queued', leaves', finished'⟩ :=
        FkSystem.command_accepted admitted shares.aloneSound connected' accepted'
      obtain rfl := Option.some.inj (ran'.symm.trans ranAgain)
      obtain rfl : wbuf' = wbuf := (Outcome.ok.inj (queued'.symm.trans queued)).2
      have aloneNext := (@FkSystem.step_sound fkCmdEval 0 alone _ (.command client args)
        (shares.dbcnt ▸ positive) admitted shares.aloneSound finished').1
      have same : (after'.withWbuf wbuf').out = (after.withWbuf wbuf').out := by
        have type := leaves'.type.trans leaves.type.symm
        have idx := leaves'.idx.trans
          ((congrArg (fun cnt => (cmdOf args).selects cnt out.dbIdx) shares.dbcnt).trans
            leaves.idx.symm)
        change FkConnOut.mk after'.out.type wbuf' after'.out.dbIdx = FkConnOut.mk after.out.type
          wbuf' after.out.dbIdx
        rw [show after'.out.type = after.out.type from type,
          show after'.out.dbIdx = after.out.dbIdx from idx]
      subst known
      refine ⟨_, finished', ⟨fullNext, aloneNext, ?_, ?_, ?_, ?_, ?_⟩, ?_⟩
      · change EqOn (cellsOf after.svr.spaces) (cellsOf after'.svr.spaces) cells
        rw [leaves.holds.spaces_eq, leaves'.holds.spaces_eq]
        change EqOn _ (cellsOf ((cmdOf args).after alone.svr.dbcnt _ _ _)) cells
        rw [shares.dbcnt]
        exact agree
      · intro other ownOther
        by_cases here : other = client
        · rw [here, conns_setConn_self, conns_setConn_self, same]
        · rw [conns_setConn_other _ here, conns_setConn_other _ here]
          exact shares.conns other ownOther
      · exact leaves'.dbcnt.trans (shares.dbcnt.trans leaves.dbcnt.symm)
      · exact leaves'.junk.trans (shares.junk.trans leaves.junk.symm)
      · have kept : after'.svr.clock = alone.svr.clock :=
          congrArg (fun parts => parts.2.2.2.2.1) leaves'.frame
        change ∀ reading < later.length, after'.svr.clock (after'.svr.readings + reading) = _
        rw [kept, leaves'.readings, readings]
        exact clock_behind length clock
      · rw [queuedFor_setConn connected', queuedFor_setConn connected, same]

/-- A step of one of these clients. -/
theorem Shares.own (positive : 0 < full.svr.dbcnt)
    (shares : Shares mine cells (timesRead full next ++ later) full alone)
    (admitted : event.Admitted) (apart : Apart mine cells full event)
    (own : mine event.client = true) (accepted : Accepted fkCmdEval full event)
    (stepped : full.step fkCmdEval maxWbuf event = some next) :
    ∃ next', alone.step fkCmdEval maxWbuf event = some next' ∧ Shares mine cells later next next' ∧
      told mine alone next' event = told mine full next event := by
  have fullNext := (FkSystem.step_sound positive admitted shares.fullSound stepped).1
  have sound : ∀ next', alone.step fkCmdEval maxWbuf event = some next' → next'.Sound :=
    fun next' stepped' =>
      (FkSystem.step_sound (shares.dbcnt ▸ positive) admitted shares.aloneSound stepped').1
  cases event with
  | connect client =>
      cases stepped
      rw [timesRead_setConn, List.nil_append] at shares
      exact ⟨_, rfl, shares.of_conn fullNext (sound _ rfl), rfl⟩
  | sent client count =>
      cases stepped
      rw [timesRead_setConn, List.nil_append] at shares
      have conns : alone.conns client = full.conns client := shares.conns client own
      refine ⟨_, rfl, ?_, rfl⟩
      have aloneNext := sound _ rfl
      rw [conns] at aloneNext ⊢
      exact shares.of_conn fullNext aloneNext
  | close client =>
      cases stepped
      rw [timesRead_setConn, List.nil_append] at shares
      exact ⟨_, rfl, shares.of_conn fullNext (sound _ rfl), rfl⟩
  | command client args =>
      obtain ⟨next', stepped', shared, same⟩ :=
        shares.own_command positive admitted apart own accepted stepped
      refine ⟨next', stepped', shared, ?_⟩
      change (if mine client then _ else _) = if mine client then _ else _
      rw [same]

/-- The second run has the events of these clients only. -/
theorem Shares.run {final : FkSystem} {events : List Event} (positive : 0 < full.svr.dbcnt)
    (shares : Shares mine cells (timesIn fkCmdEval maxWbuf mine full events ++ later) full alone)
    (admitted : ∀ event ∈ events, event.Admitted)
    (apart : Along fkCmdEval maxWbuf (Apart mine cells) full events)
    (heard : Along fkCmdEval maxWbuf (Heard fkCmdEval mine) full events)
    (reached : full.run fkCmdEval maxWbuf events = some final) :
    ∃ final', alone.run fkCmdEval maxWbuf (events.filter fun event => mine event.client) =
      some final' ∧ Shares mine cells later final final' ∧
      toldIn fkCmdEval maxWbuf mine alone (events.filter fun event => mine event.client) =
        toldIn fkCmdEval maxWbuf mine full events := by
  induction events generalizing full alone with
  | nil =>
      cases reached
      exact ⟨alone, rfl, shares, rfl⟩
  | cons event rest ih =>
      obtain ⟨first, others⟩ := List.forall_mem_cons.mp admitted
      obtain ⟨middle, stepped, onward⟩ := Option.bind_eq_some_iff.mp reached
      have dbcnt := (FkSystem.step_sound positive first shares.fullSound stepped).2
      rw [timesIn, stepped] at shares
      rw [toldIn, stepped]
      cases own : mine event.client with
      | false =>
          have silent : told mine full middle event = [] := by
            cases event with
            | command client args =>
                exact if_neg (by rw [show mine client = false from own]; exact Bool.false_ne_true)
            | connect client => rfl
            | sent client count => rfl
            | close client => rfl
          dsimp only at shares
          rw [own, if_neg Bool.false_ne_true, List.nil_append] at shares
          have next := shares.other positive first apart.1 own stepped
          obtain ⟨final', ran, shared, same⟩ :=
            ih (dbcnt ▸ positive) next others (apart.2 _ stepped) (heard.2 _ stepped) onward
          have dropped : (event :: rest).filter (fun event => mine event.client) =
              rest.filter fun event => mine event.client :=
            List.filter_cons_of_neg (by rw [own]; exact Bool.false_ne_true)
          refine ⟨final', ?_, shared, ?_⟩
          · rw [dropped]
            exact ran
          · rw [dropped, same]
            dsimp only
            rw [silent, List.nil_append]
      | true =>
          dsimp only at shares
          rw [own, if_pos rfl, List.append_assoc] at shares
          obtain ⟨next', stepped', next, heardSame⟩ :=
            shares.own positive first apart.1 own (heard.1 own) stepped
          obtain ⟨final', ran, shared, same⟩ :=
            ih (dbcnt ▸ positive) next others (apart.2 _ stepped) (heard.2 _ stepped) onward
          have kept : (event :: rest).filter (fun event => mine event.client) =
              event :: rest.filter fun event => mine event.client := List.filter_cons_of_pos own
          refine ⟨final', ?_, shared, ?_⟩
          · rw [kept, FkSystem.run, stepped']
            exact ran
          · rw [kept, toldIn, stepped']
            dsimp only
            rw [heardSame, same]

end Step

/-! ## Runs -/

namespace FkRun

variable {fkCmdEval : Handler} {dbcnt : Nat} (run : FkRun fkCmdEval dbcnt) (mine : Nat → Bool)

/-- The commands of these clients reach these cells and no others, and those of the other clients
reach none of them. -/
def Apart (cells : Set (Nat × Bytes)) : Prop :=
  Along fkCmdEval run.maxWbuf (Freekick.Apart mine cells) run.start run.events

/-- The replies to these clients are accepted. -/
def Heard : Prop := Along fkCmdEval run.maxWbuf (Freekick.Heard fkCmdEval mine) run.start run.events

/-- What is queued for these clients. -/
def told : List (Nat × Bytes) := toldIn fkCmdEval run.maxWbuf mine run.start run.events

/-- The readings of the clock that their commands take. -/
def times : List Int := timesIn fkCmdEval run.maxWbuf mine run.start run.events

instance : Decidable (run.Heard mine) :=
  have _decides (sys : FkSystem) (event : Event) :
      Decidable (Freekick.Heard fkCmdEval mine sys event) :=
    inferInstanceAs (Decidable (mine event.client = true → Freekick.Accepted fkCmdEval sys event))
  inferInstanceAs (Decidable
    (Along fkCmdEval run.maxWbuf (Freekick.Heard fkCmdEval mine) run.start run.events))

end FkRun

/-- Clients that keep apart from the others could as well be alone: with a clock that shows them
what it showed, they are told the same and leave the same. -/
theorem fkSystem_alone {fkCmdEval : Handler} {dbcnt : Nat} (positive : 0 < dbcnt)
    (run : FkRun fkCmdEval dbcnt) (mine : Nat → Bool) (cells : Set (Nat × Bytes))
    (apart : run.Apart mine cells) (heard : run.Heard mine) :
    ∃ alone : FkRun fkCmdEval dbcnt,
      alone.events = run.events.filter (fun event => mine event.client) ∧
      alone.maxWbuf = run.maxWbuf ∧ alone.junk = run.junk ∧
        (alone.clock = fun reading => (run.times mine).getD reading 0) ∧
      alone.told mine = run.told mine ∧
      (∀ client, mine client = true → alone.final.conns client = run.final.conns client) ∧
      EqOn (cellsOf run.final.svr.spaces) (cellsOf alone.final.svr.spaces) cells := by
  have shares : Shares mine cells (run.times mine ++ []) run.start
      (fkSystemInit dbcnt run.blogOn (fun reading => (run.times mine).getD reading 0)
        run.junk) := by
    refine ⟨fkSystemInit_sound .., fkSystemInit_sound .., eqOn_refl .., fun _ _ => rfl, rfl, rfl,
      fun reading _ => ?_⟩
    rw [List.append_nil]
    exact congrArg (fun place => (run.times mine).getD place 0) (Nat.zero_add reading)
  obtain ⟨final, reached, shared, same⟩ := shares.run positive run.admitted apart heard run.reached
  have admitted : ∀ event ∈ run.events.filter (fun event => mine event.client), event.Admitted :=
    fun event member =>
      run.admitted event (List.mem_of_mem_filter member)
  exact ⟨⟨run.maxWbuf, run.blogOn, _, run.junk, _, final, admitted, reached⟩, rfl, rfl, rfl, rfl,
    same, shared.conns, shared.cells⟩

/-- Two clients on one database, each with a key of its own. -/
def apartRun : FkRun (fun _ => Act.fault) 1 :=
  .of 1024 (fun reading => 1000 * reading) (fun _ => 0)
    [.connect 0, .connect 1, .command 0 [ascii "SETEX", ascii "k", ascii "2", ascii "v"],
      .command 1 [ascii "SETEX", ascii "q", ascii "5", ascii "w"],
      .command 1 [ascii "GET", ascii "q"], .command 0 [ascii "GET", ascii "k"]] (by decide +kernel)
        (by decide +kernel)

theorem fkSystem_alone_apart :
    ∃ alone : FkRun (fun _ => Act.fault) 1,
      alone.events = apartRun.events.filter (fun event => event.client == 0) ∧
      alone.maxWbuf = apartRun.maxWbuf ∧ alone.junk = apartRun.junk ∧
      (alone.clock = fun reading => (apartRun.times (· == 0)).getD reading 0) ∧
      alone.told (· == 0) = apartRun.told (· == 0) ∧
      (∀ client, (client == 0) = true → alone.final.conns client = apartRun.final.conns client) ∧
      EqOn (cellsOf apartRun.final.svr.spaces) (cellsOf alone.final.svr.spaces)
        {cell | cell.2 = ascii "k"} := by
  have apart : apartRun.Apart (· == 0) {cell | cell.2 = ascii "k"} := by
    apply along_of_forall
    intro event member sys
    have own : ∀ args, (cmdOf args).reached = {ascii "k"} → cmdOf args ≠ .flushall →
        Freekick.Apart (· == 0) {cell | cell.2 = ascii "k"} sys (.command 0 args) := by
      intro args only notAll out connected
      rw [if_pos (by decide), Cmd.reach, if_neg notAll, only]
      rintro cell ⟨_, key⟩
      exact key
    have other : ∀ args, (cmdOf args).reached = {ascii "q"} → cmdOf args ≠ .flushall →
        Freekick.Apart (· == 0) {cell | cell.2 = ascii "k"} sys (.command 1 args) := by
      intro args only notAll out connected
      rw [if_neg (by decide), Cmd.reach, if_neg notAll, only]
      rintro cell ⟨_, key⟩ same
      exact absurd (key.symm.trans same) (by decide)
    simp only [apartRun, FkRun.of, List.mem_cons, List.not_mem_nil, or_false] at member
    rcases member with rfl | rfl | rfl | rfl | rfl | rfl
    · trivial
    · trivial
    · exact own _ rfl (by decide)
    · exact other _ rfl (by decide)
    · exact other _ rfl (by decide)
    · exact own _ rfl (by decide)
  have heard : apartRun.Heard (· == 0) := by decide +kernel
  exact fkSystem_alone (by decide) apartRun (· == 0) {cell | cell.2 = ascii "k"} apart heard

end Freekick
