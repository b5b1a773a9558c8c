import Freekick.Store.Keyspace

/-!
# Commands on one key

Most commands look at the value of a single key and at no deadline.  What such a command
answers, and whether it writes the key, depends on that value alone.
-/

namespace Freekick

/-- The key is given a value, or left as it was. -/
def Keyspace.write (space : Keyspace) (key : Bytes) : Option Value → Keyspace
  | none => space
  | some value => space.put key value

theorem Keyspace.write_deadlines (space : Keyspace) (key : Bytes) (item : Option Value) :
    (space.write key item).deadlines = space.deadlines := by
  cases item <;> rfl

namespace Cmd

/-- The key of a command that looks at nothing else. -/
def ownKey : Cmd → Option Bytes
  | .setnx key _ | .existing key | .hset key _ _ | .hget key _ | .push _ key _ | .pop _ key |
    .llen key => some key
  | _ => none

/-- The reply to what is found under the key, and the value that is written there.  A string is
not written over, and nothing is written with an error. -/
structure Acts (cmd : Cmd) (key : Bytes) (act : Option Value → Reply × Option Value) : Prop where
  run : ∀ dbcnt clock space, cmd.run dbcnt clock space =
    some ⟨(act (space.values key)).1, space.write key (act (space.values key)).2, 0⟩
  spares : ∀ bytes, (act (some (.str bytes))).2 = none
  errors : ∀ found message, (act found).1 = .error message → (act found).2 = none

/-- A command that writes nothing. -/
theorem acts_answer {cmd : Cmd} {key : Bytes} {reply : Option Value → Reply}
    (run : ∀ dbcnt clock space,
      cmd.run dbcnt clock space = some ⟨reply (space.values key), space, 0⟩) :
    cmd.Acts key fun found => (reply found, none) :=
  ⟨run, fun _ => rfl, fun _ _ _ => rfl⟩

theorem acts_existing (key : Bytes) :
    (existing key).Acts key fun found => (.int (if found.isSome then 1 else 0), none) :=
  acts_answer fun _ _ _ => rfl

theorem acts_hget (hkey key : Bytes) :
    (hget hkey key).Acts hkey fun found => (hgetReply key found, none) :=
  acts_answer fun _ _ _ => rfl

theorem acts_llen (key : Bytes) : (llen key).Acts key fun found => (llenReply found, none) :=
  acts_answer fun _ _ _ => rfl

theorem acts_setnx (key value : Bytes) : (setnx key value).Acts key fun found =>
    if found.isSome then (.int 0, none) else (.int 1, some (.str value)) where
  run := by
    intro dbcnt clock space
    rw [Cmd.run]
    split <;> rfl
  spares := fun _ => rfl
  errors := by
    intro found message error
    cases found <;> cases error

def hsetAct (key value : Bytes) : Option Value → Reply × Option Value
  | none => (.int 1, some (.hash (Function.update (fun _ => none) key (some value))))
  | some (.hash fields) =>
      (.int 1, some (.hash
        (if (fields key).isSome then fields else Function.update fields key (some value))))
  | some _ => (.error fkRspTypeErr, none)

theorem acts_hset (hkey key value : Bytes) :
    (hset hkey key value).Acts hkey (hsetAct key value) where
  run := by
    intro dbcnt clock space
    rw [Cmd.run]
    cases space.values hkey with
    | none => rfl
    | some found => cases found <;> rfl
  spares := fun _ => rfl
  errors := by
    intro found message error
    cases found with
    | none => cases error
    | some found => cases found <;> first | rfl | cases error

def pushAct (pos : ListPos) (nodes : List Bytes) : Option Value → Reply × Option Value
  | none => (.int nodes.length, some (.list (nodes.foldl pos.insert [])))
  | some (.list old) => (.int nodes.length, some (.list (nodes.foldl pos.insert old)))
  | some _ => (.error fkRspTypeErr, none)

theorem acts_push (pos : ListPos) (key : Bytes) (nodes : List Bytes) :
    (push pos key nodes).Acts key (pushAct pos nodes) where
  run := by
    intro dbcnt clock space
    rw [Cmd.run]
    cases space.values key with
    | none => rfl
    | some found => cases found <;> rfl
  spares := fun _ => rfl
  errors := by
    intro found message error
    cases found with
    | none => cases error
    | some found => cases found <;> first | rfl | cases error

def popAct (pos : ListPos) : Option Value → Reply × Option Value
  | none => (.nil, none)
  | some (.list nodes) =>
      match pos.node? nodes with
      | none => (.nil, none)
      | some node => (.bulk node, some (.list (pos.remove nodes)))
  | some _ => (.error fkRspTypeErr, none)

theorem acts_pop (pos : ListPos) (key : Bytes) : (pop pos key).Acts key (popAct pos) where
  run := by
    intro dbcnt clock space
    rw [Cmd.run, popAct.eq_def]
    cases space.values key with
    | none => rfl
    | some found =>
        cases found with
        | list nodes =>
            dsimp only
            cases pos.node? nodes <;> rfl
        | _ => rfl
  spares := fun _ => rfl
  errors := by
    intro found message error
    cases found with
    | none => rfl
    | some found =>
        cases found with
        | list nodes =>
            rw [popAct] at error ⊢
            split at error <;> cases error
        | _ => rfl

theorem exists_acts {cmd : Cmd} {key : Bytes} (own : cmd.ownKey = some key) :
    ∃ act, cmd.Acts key act := by
  cases cmd with
  | setnx => cases own; exact ⟨_, acts_setnx ..⟩
  | existing => cases own; exact ⟨_, acts_existing _⟩
  | hset => cases own; exact ⟨_, acts_hset ..⟩
  | hget => cases own; exact ⟨_, acts_hget ..⟩
  | push => cases own; exact ⟨_, acts_push ..⟩
  | pop => cases own; exact ⟨_, acts_pop ..⟩
  | llen => cases own; exact ⟨_, acts_llen _⟩
  | _ => cases own

/-- Such a command does not crash. -/
theorem run_ne_none {cmd : Cmd} {key : Bytes} (own : cmd.ownKey = some key) (dbcnt : Nat)
    (clock : Nat → Int) (space : Keyspace) :
    cmd.run dbcnt clock space ≠ none := by
  obtain ⟨act, acts⟩ := exists_acts own
  rw [acts.run]
  nofun

end Cmd

end Freekick
