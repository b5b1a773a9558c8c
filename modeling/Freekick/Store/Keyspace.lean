import Mathlib.Data.Finset.Card
import Freekick.Store.Reply

/-!
# Keyspaces

What the commands are for, told without dictionaries and buffers.  A keyspace is a
database with the deadlines of its keys, as two maps.  A command finds one keyspace
and the clock readings from now on; it answers with one reply term and leaves a
keyspace.  Expiry is as lazy as it is in the source: `GET` and `MGET` look at the
deadline of a key, and no other command does.
-/

namespace Freekick

@[ext]
structure Keyspace where
  values : Bytes → Option Value
  deadlines : Bytes → Option Int

/-- A look at keys: what was found, what is left and how often the clock was read. -/
structure Looked (A : Type) where
  found : A
  left : Keyspace
  readings : Nat

namespace Keyspace

def empty : Keyspace := ⟨fun _ => none, fun _ => none⟩

def put (space : Keyspace) (key : Bytes) (value : Value) : Keyspace :=
  { space with values := Function.update space.values key (some value) }

def setDeadline (space : Keyspace) (key : Bytes) (deadline : Int) : Keyspace :=
  { space with deadlines := Function.update space.deadlines key (some deadline) }

def dropValue (space : Keyspace) (key : Bytes) : Keyspace :=
  { space with values := Function.update space.values key none }

def dropDeadline (space : Keyspace) (key : Bytes) : Keyspace :=
  { space with deadlines := Function.update space.deadlines key none }

/-- The keys lose their values and keep their deadlines. -/
def drop (space : Keyspace) (keys : List Bytes) : Keyspace :=
  { space with values := fun key => if key ∈ keys then none else space.values key }

/-- The key loses its value and its deadline. -/
def remove (space : Keyspace) (key : Bytes) : Keyspace := (space.dropValue key).dropDeadline key

def putAll (space : Keyspace) (pairs : List (Bytes × Bytes)) : Keyspace :=
  pairs.foldl (fun space pair => space.put pair.1 (.str pair.2)) space

/-- How many different keys of the list are present. -/
def present (space : Keyspace) (keys : List Bytes) : Nat :=
  (keys.toFinset.filter fun key => (space.values key).isSome).card

/-- A key that is looked up is removed first when its deadline is over. -/
def look (space : Keyspace) (clock : Nat → Int) (key : Bytes) : Looked (Option Value) :=
  match space.deadlines key with
  | none => ⟨space.values key, space, 0⟩
  | some deadline =>
      if deadline < clock 0 then ⟨none, space.remove key, 1⟩ else ⟨space.values key, space, 1⟩

def lookAll : (Nat → Int) → List Bytes → Keyspace → Looked (List (Option Value))
  | _, [], space => ⟨[], space, 0⟩
  | clock, key :: rest, space =>
      let first := space.look clock key
      let later := lookAll (fun reading => clock (first.readings + reading)) rest first.left
      ⟨first.found :: later.found, later.left, first.readings + later.readings⟩

end Keyspace

/-- The bytes of a string value. -/
def Value.bytes? : Value → Option Bytes
  | .str bytes => some bytes
  | _ => none

/-- The reply of `GET` on the value that is found. -/
def getReply : Option Value → Reply
  | none => .nil
  | some (.str bytes) => .bulk bytes
  | some _ => .error fkRspTypeErr

/-- The reply of `HGET`. -/
def hgetReply (field : Bytes) : Option Value → Reply
  | none => .nil
  | some (.hash fields) =>
      match fields field with
      | none => .nil
      | some bytes => .bulk bytes
  | some _ => .error fkRspTypeErr

/-- The reply of `LLEN`; the length is an `int`. -/
def llenReply : Option Value → Reply
  | none => .int 0
  | some (.list nodes) => .int (toInt32 nodes.length)
  | some _ => .error fkRspTypeErr

/-- What a command answers, the keyspace it leaves and how often it read the clock. -/
structure Answer where
  reply : Reply
  space : Keyspace
  readings : Nat

/-- The commands other than `EVAL`.  A request that is answered with an error before any
handler looks at a database is `refused`. -/
inductive Cmd where
  | set (key value : Bytes)
  | setnx (key value : Bytes)
  | setex (key exp value : Bytes)
  | mset (pairs : List (Bytes × Bytes))
  | mget (keys : List Bytes)
  | get (key : Bytes)
  | del (keys : List Bytes)
  | flushdb
  | existing (key : Bytes)
  | flushall
  | hset (hkey key value : Bytes)
  | hget (hkey key : Bytes)
  | push (pos : ListPos) (key : Bytes) (nodes : List Bytes)
  | pop (pos : ListPos) (key : Bytes)
  | llen (key : Bytes)
  | save
  | select (text : Bytes)
  | zadd (key : Bytes) (count : Nat)
  | refused (message : Bytes)
  deriving DecidableEq

namespace Cmd

/-- The index that `SELECT` is given is not one of a database. -/
def OutOfRange (dbcnt : Nat) (text : Bytes) : Prop := atoi text < 0 ∨ (dbcnt : Int) ≤ atoi text

instance (dbcnt : Nat) (text : Bytes) : Decidable (OutOfRange dbcnt text) :=
  inferInstanceAs (Decidable (atoi text < 0 ∨ (dbcnt : Int) ≤ atoi text))

/-- The command on the keyspace of the selected database.  `none` is a crash. -/
def run (dbcnt : Nat) (clock : Nat → Int) (space : Keyspace) : Cmd → Option Answer
  | .set key value => some ⟨.status fkRspOk, space.put key (.str value), 0⟩
  | .setnx key value =>
      if (space.values key).isSome then some ⟨.int 0, space, 0⟩
      else some ⟨.int 1, space.put key (.str value), 0⟩
  | .setex key exp value =>
      some ⟨.status fkRspOk,
        (space.put key (.str value)).setDeadline key (toInt64 (strtol exp * 1000 + clock 0)), 1⟩
  | .mset pairs => some ⟨.status fkRspOk, space.putAll pairs, 0⟩
  | .mget keys =>
      let looked := space.lookAll clock keys
      some ⟨.multi (looked.found.map fun value => value.bind Value.bytes?), looked.left,
        looked.readings⟩
  | .get key =>
      let looked := space.look clock key
      some ⟨getReply looked.found, looked.left, looked.readings⟩
  | .del keys => some ⟨.int (space.present keys), space.drop keys, 0⟩
  | .flushdb => some ⟨.status fkRspOk, .empty, 0⟩
  | .existing key => some ⟨.int (if (space.values key).isSome then 1 else 0), space, 0⟩
  | .flushall => some ⟨.status fkRspOk, .empty, 0⟩
  | .hset hkey key value =>
      match space.values hkey with
      | none =>
          some ⟨.int 1, space.put hkey (.hash (Function.update (fun _ => none) key (some value))),
            0⟩
      | some (.hash fields) =>
          some ⟨.int 1, space.put hkey (.hash (if (fields key).isSome then fields
            else Function.update fields key (some value))), 0⟩
      | some _ => some ⟨.error fkRspTypeErr, space, 0⟩
  | .hget hkey key => some ⟨hgetReply key (space.values hkey), space, 0⟩
  | .push pos key nodes =>
      match space.values key with
      | none => some ⟨.int nodes.length, space.put key (.list (nodes.foldl pos.insert [])), 0⟩
      | some (.list old) =>
          some ⟨.int nodes.length, space.put key (.list (nodes.foldl pos.insert old)), 0⟩
      | some _ => some ⟨.error fkRspTypeErr, space, 0⟩
  | .pop pos key =>
      match space.values key with
      | none => some ⟨.nil, space, 0⟩
      | some (.list nodes) =>
          match pos.node? nodes with
          | none => some ⟨.nil, space, 0⟩
          | some node => some ⟨.bulk node, space.put key (.list (pos.remove nodes)), 0⟩
      | some _ => some ⟨.error fkRspTypeErr, space, 0⟩
  | .llen key => some ⟨llenReply (space.values key), space, 0⟩
  | .save => some ⟨.status fkRspOk, space, 0⟩
  | .select text =>
      some ⟨if OutOfRange dbcnt text then .error fkRspErr else .status fkRspOk, space, 0⟩
  | .zadd key count =>
      match space.values key with
      | none => none
      | some _ =>
          some ⟨if count % 2 ≠ 0 then .error fkRspArgcErr else .int (count / 2 : Nat), space, 0⟩
  | .refused message => some ⟨.error message, space, 0⟩

/-- All keyspaces after a command that leaves `own` in the selected one. -/
def after (dbcnt idx : Nat) (spaces : Nat → Keyspace) (own : Keyspace) : Cmd → Nat → Keyspace
  | .flushall => fun other => if other < dbcnt then .empty else spaces other
  | _ => Function.update spaces idx own

/-- The database that is selected after the command. -/
def selects (dbcnt idx : Nat) : Cmd → Nat
  | .select text => if OutOfRange dbcnt text then idx else (atoi text).toNat
  | _ => idx

/-- What is left of a command when one of its replies is refused: a pop replies before it
removes the node, and `MGET` has looked at some keys.  All other commands reply last. -/
def cut (count : Nat) : Cmd → Cmd
  | .pop _ _ => .refused []
  | .mget keys => .mget (keys.take count)
  | cmd => cmd

def miscounted : Cmd := .refused (ascii "Wrong Argument Number")

/-- The command of a request. -/
def read (name : Bytes) (rest : List Bytes) : Cmd :=
  if name = ascii "SET" then
    match rest with
    | [key, value] => .set key value
    | _ => miscounted
  else if name = ascii "SETNX" then
    match rest with
    | [key, value] => .setnx key value
    | _ => miscounted
  else if name = ascii "SETEX" then
    match rest with
    | [key, exp, value] => .setex key exp value
    | _ => miscounted
  else if name = ascii "MSET" then
    match rest with
    | _ :: _ :: _ => if rest.length % 2 ≠ 0 then .refused fkRspArgcErr else .mset (pairs rest)
    | _ => miscounted
  else if name = ascii "MGET" then
    match rest with
    | [] => miscounted
    | keys => .mget keys
  else if name = ascii "GET" then
    match rest with
    | [key] => .get key
    | _ => miscounted
  else if name = ascii "DEL" then
    match rest with
    | [] => miscounted
    | keys => .del keys
  else if name = ascii "FLUSHDB" then
    match rest with
    | [] => .flushdb
    | _ => miscounted
  else if name = ascii "EXISTS" then
    match rest with
    | [key] => .existing key
    | _ => miscounted
  else if name = ascii "FLUSHALL" then
    match rest with
    | [] => .flushall
    | _ => miscounted
  else if name = ascii "HSET" then
    match rest with
    | [hkey, key, value] => .hset hkey key value
    | _ => miscounted
  else if name = ascii "HGET" then
    match rest with
    | [hkey, key] => .hget hkey key
    | _ => miscounted
  else if name = ascii "LPUSH" then
    match rest with
    | key :: node :: nodes => .push .head key (node :: nodes)
    | _ => miscounted
  else if name = ascii "RPUSH" then
    match rest with
    | key :: node :: nodes => .push .tail key (node :: nodes)
    | _ => miscounted
  else if name = ascii "LPOP" then
    match rest with
    | [key] => .pop .head key
    | _ => miscounted
  else if name = ascii "RPOP" then
    match rest with
    | [key] => .pop .tail key
    | _ => miscounted
  else if name = ascii "LLEN" then
    match rest with
    | [key] => .llen key
    | _ => miscounted
  else if name = ascii "SAVE" then
    match rest with
    | [] => .save
    | _ => miscounted
  else if name = ascii "SELECT" then
    match rest with
    | [text] => .select text
    | _ => miscounted
  else if name = ascii "ZADD" then
    match rest with
    | key :: score :: member :: more => .zadd key (score :: member :: more).length
    | _ => miscounted
  else .refused (ascii "Invalid Protocol")

end Cmd

/-- The command of the arguments as they are parsed. -/
def cmdOf (args : List Bytes) : Cmd := Cmd.read (fkStr2upper (args.headD [])) args.tail

/-! ## The pairs of an `MSET` -/

/-- The value that a list of pairs gives to a key; the last pair counts. -/
def written (pairs : List (Bytes × Bytes)) (key : Bytes) : Option Bytes :=
  (pairs.reverse.find? fun pair => pair.1 == key).map Prod.snd

namespace Keyspace

theorem putAll_append (space : Keyspace) (pairs : List (Bytes × Bytes)) (pair : Bytes × Bytes) :
    space.putAll (pairs ++ [pair]) = (space.putAll pairs).put pair.1 (.str pair.2) :=
      List.foldl_append

theorem written_append (pairs : List (Bytes × Bytes)) (pair : Bytes × Bytes) (key : Bytes) :
    written (pairs ++ [pair]) key = if pair.1 = key then some pair.2 else written pairs key := by
  unfold written
  rw [List.reverse_append, List.reverse_singleton, List.singleton_append, List.find?_cons]
  by_cases same : pair.1 = key
  · rw [beq_iff_eq.mpr same, if_pos same]
    rfl
  · rw [beq_eq_false_iff_ne.mpr same, if_neg same]

theorem putAll_values (space : Keyspace) (pairs : List (Bytes × Bytes)) (key : Bytes) :
    (space.putAll pairs).values key = ((written pairs key).map Value.str).or
    (space.values key) := by
  induction pairs using List.reverseRecOn with
  | nil => rfl
  | append_singleton pairs pair ih =>
      rw [putAll_append, written_append]
      change Function.update (space.putAll pairs).values pair.1 (some (.str pair.2)) key = _
      by_cases same : pair.1 = key
      · rw [← same, Function.update_self, if_pos rfl]
        rfl
      · rw [Function.update_of_ne (Ne.symm same), if_neg same]
        exact ih

theorem putAll_deadlines (space : Keyspace) (pairs : List (Bytes × Bytes)) :
    (space.putAll pairs).deadlines = space.deadlines := by
  induction pairs using List.reverseRecOn with
  | nil => rfl
  | append_singleton pairs pair ih =>
      rw [putAll_append]
      exact ih

end Keyspace

/-! ## Servers that hold keyspaces -/

/-- The databases of the server stand for the keyspaces, with numbers as deadlines. -/
structure Holds (svr : FkSvr) (spaces : Nat → Keyspace) : Prop where
  values : ∀ idx, dbMap (svr.db idx) = (spaces idx).values
  deadlines : ∀ idx key, fkDictGet dbDictEop (svr.expdb idx) key =
    ((spaces idx).deadlines key).map FkItem.num

def FkItem.number? : FkItem → Option Int
  | .num number => some number
  | _ => none

/-- The keyspaces that the databases stand for. -/
def FkSvr.spaces (svr : FkSvr) : Nat → Keyspace := fun idx =>
  ⟨dbMap (svr.db idx), fun key => (fkDictGet dbDictEop (svr.expdb idx) key).bind FkItem.number?⟩

/-- Every deadline is a number. -/
def FkSvr.Timed (svr : FkSvr) : Prop :=
  ∀ idx key item, fkDictGet dbDictEop (svr.expdb idx) key = some item →
    ∃ deadline, item = .num deadline

section Spaces

variable {svr : FkSvr} {spaces : Nat → Keyspace}

theorem FkSvr.Timed.holds (timed : svr.Timed) : Holds svr svr.spaces where
  values := fun _ => rfl
  deadlines := by
    intro idx key
    change _ = ((fkDictGet dbDictEop (svr.expdb idx) key).bind FkItem.number?).map FkItem.num
    cases held : fkDictGet dbDictEop (svr.expdb idx) key with
    | none => rfl
    | some item =>
        obtain ⟨deadline, rfl⟩ := timed idx key item held
        rfl

theorem Holds.timed (holds : Holds svr spaces) : svr.Timed := by
  intro idx key item held
  rw [holds.deadlines] at held
  obtain ⟨deadline, _, rfl⟩ := Option.map_eq_some_iff.mp held
  exact ⟨deadline, rfl⟩

/-- The keyspaces are determined. -/
theorem Holds.spaces_eq (holds : Holds svr spaces) : svr.spaces = spaces := by
  funext idx
  have deadlines : (fun key => (fkDictGet dbDictEop (svr.expdb idx) key).bind FkItem.number?) =
      (spaces idx).deadlines := by
    funext key
    rw [holds.deadlines]
    cases (spaces idx).deadlines key with
    | none => rfl
    | some deadline => rfl
  unfold FkSvr.spaces
  rw [deadlines, holds.values]

end Spaces

theorem fkSvrInit_timed (dbcnt : Nat) (blogOn : Bool) (clock : Nat → Int) (junk : Nat → UInt8) :
    (fkSvrInit dbcnt blogOn clock junk).Timed := by
  intro idx key item held
  change fkDictGet dbDictEop fkDictCreate key = some item at held
  rw [fkDictCreate, fkDictGet_init dbDictEop_lawful] at held
  cases held

end Freekick
