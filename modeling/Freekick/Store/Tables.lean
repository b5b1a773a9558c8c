import Freekick.Store.WriteLog

/-!
# Tables

What the string and list commands are for, without deadlines, hashes and the width of
an `int`: a database is a map from byte strings to a string or a sequence of strings.
As long as no key has a deadline, the commands do on keyspaces what they do on tables.
-/

namespace Freekick

inductive Entry where
  | str (bytes : Bytes)
  | list (nodes : List Bytes)
  deriving DecidableEq

def Entry.value : Entry → Value
  | .str bytes => .str bytes
  | .list nodes => .list nodes

def Entry.bytes? : Entry → Option Bytes
  | .str bytes => some bytes
  | .list _ => none

abbrev Table := Bytes → Option Entry

namespace Table

def put (table : Table) (key : Bytes) (entry : Entry) : Table :=
  Function.update table key (some entry)

/-- The sequence after a push; the last node comes to stand at the end that is pushed to. -/
def pushed : ListPos → List Bytes → List Bytes → List Bytes
  | .head, nodes, old => nodes.reverse ++ old
  | .tail, nodes, old => old ++ nodes

/-- The node at an end of a sequence and the rest of it. -/
def popped : ListPos → List Bytes → Option (Bytes × List Bytes)
  | .head, [] => none
  | .head, node :: rest => some (node, rest)
  | .tail, nodes => nodes.getLast?.map fun node => (node, nodes.dropLast)

/-- The reply of a string or list command and the table it leaves. -/
def apply (dbcnt : Nat) (table : Table) : Cmd → Reply × Table
  | .set key value => (.status fkRspOk, table.put key (.str value))
  | .setnx key value =>
      if (table key).isSome then (.int 0, table) else (.int 1, table.put key (.str value))
  | .mset pairs => (.status fkRspOk, fun key => ((written pairs key).map Entry.str).or (table key))
  | .mget keys => (.multi (keys.map fun key => (table key).bind Entry.bytes?), table)
  | .get key =>
      match table key with
      | none => (.nil, table)
      | some (.str bytes) => (.bulk bytes, table)
      | some (.list _) => (.error fkRspTypeErr, table)
  | .del keys => (.int (keys.toFinset.filter fun key => (table key).isSome).card,
      fun key => if key ∈ keys then none else table key)
  | .existing key => (.int (if (table key).isSome then 1 else 0), table)
  | .push pos key nodes =>
      match table key with
      | none => (.int nodes.length, table.put key (.list (pushed pos nodes [])))
      | some (.list old) => (.int nodes.length, table.put key (.list (pushed pos nodes old)))
      | some (.str _) => (.error fkRspTypeErr, table)
  | .pop pos key =>
      match table key with
      | none => (.nil, table)
      | some (.list nodes) =>
          match popped pos nodes with
          | none => (.nil, table)
          | some (node, rest) => (.bulk node, table.put key (.list rest))
      | some (.str _) => (.error fkRspTypeErr, table)
  | .llen key =>
      match table key with
      | none => (.int 0, table)
      | some (.list nodes) => (.int nodes.length, table)
      | some (.str _) => (.error fkRspTypeErr, table)
  | .flushdb | .flushall => (.status fkRspOk, fun _ => none)
  | .select text => (if Cmd.OutOfRange dbcnt text then .error fkRspErr else .status fkRspOk, table)
  | .refused message => (.error message, table)
  | _ => (.nil, table)

end Table

/-- The commands on strings, lists and whole databases, without `SETEX`. -/
def Cmd.listed : Cmd → Bool
  | .setex _ _ _ | .hset _ _ _ | .hget _ _ | .save | .zadd _ _ => false
  | _ => true

/-- The keyspace holds the entries of the table and no deadline. -/
structure Keyspace.Shows (space : Keyspace) (table : Table) : Prop where
  values : space.values = fun key => (table key).map Entry.value
  deadlines : space.deadlines = fun _ => none

namespace Keyspace.Shows

variable {space : Keyspace} {table : Table} {key : Bytes}

theorem get (shows : space.Shows table) (key : Bytes) :
    space.values key = (table key).map Entry.value :=
  congrFun shows.values key

theorem isSome (shows : space.Shows table) (key : Bytes) :
    (space.values key).isSome = (table key).isSome := by
  rw [shows.get, Option.isSome_map]

theorem put (shows : space.Shows table) (key : Bytes) (entry : Entry) :
    (space.put key entry.value).Shows (table.put key entry) where
  values := by
    funext wanted
    change Function.update space.values key (some entry.value) wanted =
      (Function.update table key (some entry) wanted).map Entry.value
    by_cases same : wanted = key
    · rw [same, Function.update_self, Function.update_self, Option.map_some]
    · rw [Function.update_of_ne same, Function.update_of_ne same, shows.get]
  deadlines := shows.deadlines

theorem empty : Keyspace.empty.Shows fun _ => none := ⟨rfl, rfl⟩

theorem look (shows : space.Shows table) (clock : Nat → Int) (key : Bytes) :
    space.look clock key = ⟨(table key).map Entry.value, space, 0⟩ := by
  have untimed : space.deadlines key = none := congrFun shows.deadlines key
  rw [Keyspace.look, untimed, shows.get]

theorem lookAll (shows : space.Shows table) (clock : Nat → Int) (keys : List Bytes) :
    space.lookAll clock keys = ⟨keys.map fun key => (table key).map Entry.value, space, 0⟩ := by
  induction keys generalizing clock with
  | nil => rfl
  | cons key rest ih =>
      rw [Keyspace.lookAll, shows.look]
      dsimp only
      rw [ih]
      rfl

end Keyspace.Shows

theorem foldl_insert_eq_pushed (pos : ListPos) (nodes old : List Bytes) :
    nodes.foldl pos.insert old = Table.pushed pos nodes old := by
  induction nodes generalizing old with
  | nil => cases pos <;> simp [Table.pushed]
  | cons node rest ih =>
      rw [List.foldl_cons, ih]
      cases pos <;> simp [Table.pushed, ListPos.insert]

theorem popped_eq (pos : ListPos) (nodes : List Bytes) :
    Table.popped pos nodes = (pos.node? nodes).map fun node => (node, pos.remove nodes) := by
  cases pos with
  | head => cases nodes <;> rfl
  | tail => rfl

/-- A number is cut to an `int` once more when it is passed on. -/
theorem queueAll_int (junk : Nat → UInt8) (number : Int) :
    queueAll junk (Reply.int (toInt32 number)).calls = queueAll junk (Reply.int number).calls := by
  have cut : Rsp.queue junk (.int (toInt32 number)) = Rsp.queue junk (.int number) := by
    have len : (Rsp.int (toInt32 number)).len = (Rsp.int number).len := by
      rw [Rsp.len, Rsp.len, toInt32_toInt32]
    have text : (Rsp.int (toInt32 number)).text = (Rsp.int number).text := by
      rw [Rsp.text, Rsp.text, toInt32_toInt32]
    funext wbuf
    unfold Rsp.queue
    rw [len, text]
  have single : ∀ rsp : Rsp, queueAll junk [rsp] = rsp.queue junk :=
    fun rsp => Lib.Call.Act.bind_unit _
  rw [Reply.calls, Reply.calls, single, single, cut]

/-- The command on the keyspace and on the table. -/
theorem run_shows {dbcnt : Nat} {clock : Nat → Int} {space : Keyspace} {table : Table} {cmd : Cmd}
    (shows : space.Shows table) (listed : cmd.listed = true) :
    ∃ answer, cmd.run dbcnt clock space = some answer ∧
      answer.space.Shows (table.apply dbcnt cmd).2 ∧
      ∀ junk, queueAll junk answer.reply.calls = queueAll junk (table.apply dbcnt cmd).1.calls := by
  cases cmd with
  | set key value => exact ⟨_, rfl, shows.put key (.str value), fun _ => rfl⟩
  | setnx key value =>
      rw [Cmd.run, Table.apply, shows.isSome]
      split
      · exact ⟨_, rfl, shows, fun _ => rfl⟩
      · exact ⟨_, rfl, shows.put key (.str value), fun _ => rfl⟩
  | mset pairs =>
      refine ⟨_, rfl, ⟨funext fun key => ?_, (space.putAll_deadlines pairs).trans shows.deadlines⟩,
        fun _ => rfl⟩
      change (space.putAll pairs).values key =
        (((written pairs key).map Entry.str).or (table key)).map Entry.value
      rw [Keyspace.putAll_values, shows.get]
      cases written pairs key <;> rfl
  | mget keys =>
      rw [Cmd.run, shows.lookAll]
      refine ⟨_, rfl, shows, fun junk => ?_⟩
      have items : ((keys.map fun key => (table key).map Entry.value).map fun value =>
          value.bind Value.bytes?) = keys.map fun key => (table key).bind Entry.bytes? := by
        rw [List.map_map]
        refine List.map_congr_left fun key _ => ?_
        change ((table key).map Entry.value).bind Value.bytes? = _
        cases table key with
        | none => rfl
        | some entry => cases entry <;> rfl
      dsimp only [Table.apply]
      rw [items]
  | get key =>
      rw [Cmd.run, shows.look, Table.apply]
      cases table key with
      | none => exact ⟨_, rfl, shows, fun _ => rfl⟩
      | some entry => cases entry <;> exact ⟨_, rfl, shows, fun _ => rfl⟩
  | del keys =>
      have count : space.present keys =
          (keys.toFinset.filter fun key => (table key).isSome).card := by
        unfold Keyspace.present
        simp only [shows.isSome]
      refine ⟨_, rfl, ⟨funext fun key => ?_, shows.deadlines⟩, fun junk => ?_⟩
      · change (if key ∈ keys then none else space.values key) =
          (if key ∈ keys then none else table key).map Entry.value
        rw [shows.get]
        split <;> rfl
      · rw [count]
        rfl
  | flushdb => exact ⟨_, rfl, .empty, fun _ => rfl⟩
  | existing key =>
      rw [Cmd.run, Table.apply, shows.isSome]
      exact ⟨_, rfl, shows, fun _ => rfl⟩
  | flushall => exact ⟨_, rfl, .empty, fun _ => rfl⟩
  | push pos key nodes =>
      rw [Cmd.run, Table.apply, shows.get]
      cases table key with
      | none =>
          refine ⟨_, rfl, ?_, fun _ => rfl⟩
          rw [foldl_insert_eq_pushed]
          exact shows.put key (.list (Table.pushed pos nodes []))
      | some entry =>
          cases entry with
          | str bytes => exact ⟨_, rfl, shows, fun _ => rfl⟩
          | list old =>
              refine ⟨_, rfl, ?_, fun _ => rfl⟩
              dsimp only
              rw [foldl_insert_eq_pushed]
              exact shows.put key (.list (Table.pushed pos nodes old))
  | pop pos key =>
      rw [Cmd.run, Table.apply, shows.get]
      cases table key with
      | none => exact ⟨_, rfl, shows, fun _ => rfl⟩
      | some entry =>
          cases entry with
          | str bytes => exact ⟨_, rfl, shows, fun _ => rfl⟩
          | list nodes =>
              dsimp only [Option.map_some, Entry.value]
              rw [popped_eq]
              cases pos.node? nodes with
              | none => exact ⟨_, rfl, shows, fun _ => rfl⟩
              | some node => exact ⟨_, rfl, shows.put key (.list (pos.remove nodes)), fun _ => rfl⟩
  | llen key =>
      rw [Cmd.run, Table.apply, shows.get]
      cases table key with
      | none => exact ⟨_, rfl, shows, fun _ => rfl⟩
      | some entry =>
          cases entry with
          | str bytes => exact ⟨_, rfl, shows, fun _ => rfl⟩
          | list nodes => exact ⟨_, rfl, shows, fun junk => queueAll_int junk nodes.length⟩
  | select text => exact ⟨_, rfl, shows, fun _ => rfl⟩
  | refused message => exact ⟨_, rfl, shows, fun _ => rfl⟩
  | setex | hset | hget | save | zadd => cases listed

end Freekick
