import Freekick.Store.Keyspace
import Freekick.Store.Refused

/-!
# The handlers do what the commands are for

On a server whose databases stand for keyspaces, a handler makes the calls of the reply
that its command gives there, and leaves databases that stand for the keyspaces of the
command.  When a reply is refused, what has been done so far is again what a command
does, and the handler returns the error.
-/

namespace Freekick

open Lib.Call Lib.KeyedMap

/-! ## Changes of a database -/

theorem update_eq {V : Type} (found : Bytes → Option V) (key : Bytes) (value : V) :
    update dbDictEop.Same found key value = Function.update found key (some value) := by
  funext wanted
  unfold update
  by_cases same : wanted = key
  · rw [same, if_pos (dbDictEop_same.mpr rfl), Function.update_self]
  · rw [if_neg (fun equal => same (dbDictEop_same.mp equal).symm), Function.update_of_ne same]

theorem erase_eq {V : Type} (found : Bytes → Option V) (key : Bytes) :
    erase dbDictEop.Same found key = Function.update found key none := by
  funext wanted
  unfold erase
  by_cases same : wanted = key
  · rw [same, if_pos (dbDictEop_same.mpr rfl), Function.update_self]
  · rw [if_neg (fun equal => same (dbDictEop_same.mp equal).symm), Function.update_of_ne same]

/-- The dictionaries of the server and the hashes in them are well formed. -/
structure SvrWf (svr : FkSvr) : Prop where
  dicts : ∀ isexp idx, (svr.dict isexp idx).Wf dbDictEop
  fields : ∀ isexp idx key fields, fkDictGet dbDictEop (svr.dict isexp idx) key = some
    (.dict fields) → fields.Wf dbDictEop

theorem SvrOk.svrWf {good : Bytes → Prop} {svr : FkSvr} (ok : SvrOk good svr) : SvrWf svr where
  dicts := fun isexp idx => (ok isexp idx).wf
  fields := fun isexp idx key fields held => ((ok isexp idx).held key (.dict fields) held).2.1

theorem SvrWf.dbWf {svr : FkSvr} (wf : SvrWf svr) (idx : Nat) : (svr.db idx).Wf dbDictEop :=
  wf.dicts false idx

theorem SvrWf.expdbWf {svr : FkSvr} (wf : SvrWf svr) (idx : Nat) : (svr.expdb idx).Wf dbDictEop :=
  wf.dicts true idx

theorem SvrOk.dbWf {good : Bytes → Prop} {svr : FkSvr} (ok : SvrOk good svr) (idx : Nat) :
    (svr.db idx).Wf dbDictEop := ok.svrWf.dbWf idx

theorem SvrOk.expdbWf {good : Bytes → Prop} {svr : FkSvr} (ok : SvrOk good svr) (idx : Nat) :
    (svr.expdb idx).Wf dbDictEop := ok.svrWf.expdbWf idx

/-- The server without a key of one database. -/
def FkSvr.removeKey (svr : FkSvr) (idx : Nat) (key : Bytes) : FkSvr :=
  (svr.setDb idx (fkDictRemove dbDictEop (svr.db idx) key).2).setExpdb idx
    (fkDictRemove dbDictEop (svr.expdb idx) key).2

/-- The server after the clock was read. -/
def FkSvr.tick (svr : FkSvr) : FkSvr := { svr with readings := svr.readings + 1 }

theorem SvrOk.removeKey {good : Bytes → Prop} {svr : FkSvr} (ok : SvrOk good svr) (idx : Nat)
    (key : Bytes) :
    SvrOk good (svr.removeKey idx key) :=
  SvrOk.setExpdb (SvrOk.setDb ok ((ok false idx).remove key)) ((ok true idx).remove key)

theorem SvrWf.tick {svr : FkSvr} (wf : SvrWf svr) : SvrWf svr.tick := ⟨wf.dicts, wf.fields⟩

/-- A dictionary without one of its keys. -/
theorem SvrWf.setDict_remove {svr : FkSvr} (wf : SvrWf svr) (isexp : Bool) (idx : Nat)
    (key : Bytes) :
    SvrWf (svr.setDict isexp idx (fkDictRemove dbDictEop (svr.dict isexp idx) key).2) := by
  obtain ⟨_, removedWf, lookup⟩ := fkDictRemove_spec dbDictEop_lawful (wf.dicts isexp idx) key
  refine ⟨fun other wanted => ?_, fun other wanted found fields held => ?_⟩
  · by_cases same : (other, wanted) = (isexp, idx)
    · cases same
      rw [FkSvr.dict_setDict_same]
      exact removedWf
    · rw [FkSvr.dict_setDict_other svr _ same]
      exact wf.dicts other wanted
  · by_cases same : (other, wanted) = (isexp, idx)
    · cases same
      rw [FkSvr.dict_setDict_same, lookup, erase] at held
      split at held
      · cases held
      · exact wf.fields isexp idx found fields held
    · rw [FkSvr.dict_setDict_other svr _ same] at held
      exact wf.fields other wanted found fields held

theorem SvrWf.removeKey {svr : FkSvr} (wf : SvrWf svr) (idx : Nat) (key : Bytes) :
    SvrWf (svr.removeKey idx key) :=
  (wf.setDict_remove false idx key).setDict_remove true idx key

namespace Holds

variable {svr : FkSvr} {spaces : Nat → Keyspace} {key : Bytes}

theorem get (holds : Holds svr spaces) (idx : Nat) (key : Bytes) :
    (fkDictGet dbDictEop (svr.db idx) key).map FkItem.value = (spaces idx).values key :=
  congrFun (holds.values idx) key

theorem isSome (holds : Holds svr spaces) (idx : Nat) (key : Bytes) :
    (fkDictGet dbDictEop (svr.db idx) key).isSome = ((spaces idx).values key).isSome := by
  rw [← holds.get, Option.isSome_map]

theorem setDb (holds : Holds svr spaces) (idx : Nat) {dct : FkDb} {values : Bytes → Option Value}
    (stands : dbMap dct = values) :
    Holds (svr.setDb idx dct)
      (Function.update spaces idx { spaces idx with values := values }) where
  values := by
    intro wanted
    by_cases same : wanted = idx
    · rw [same, Function.update_self, FkSvr.db_setDb_same]
      exact stands
    · rw [Function.update_of_ne same, FkSvr.db_setDb_other svr dct same]
      exact holds.values wanted
  deadlines := by
    intro wanted key
    by_cases same : wanted = idx
    · rw [same, Function.update_self]
      exact holds.deadlines idx key
    · rw [Function.update_of_ne same]
      exact holds.deadlines wanted key

theorem setExpdb (holds : Holds svr spaces) (idx : Nat) {dct : FkDb}
    {deadlines : Bytes → Option Int}
    (stands : ∀ key, fkDictGet dbDictEop dct key = (deadlines key).map FkItem.num) :
    Holds (svr.setExpdb idx dct)
      (Function.update spaces idx { spaces idx with deadlines := deadlines }) where
  values := by
    intro wanted
    by_cases same : wanted = idx
    · rw [same, Function.update_self]
      exact holds.values idx
    · rw [Function.update_of_ne same]
      exact holds.values wanted
  deadlines := by
    intro wanted key
    by_cases same : wanted = idx
    · rw [same, Function.update_self, FkSvr.expdb_setExpdb_same]
      exact stands key
    · rw [Function.update_of_ne same, FkSvr.expdb_setExpdb_other svr dct same]
      exact holds.deadlines wanted key

theorem replace (holds : Holds svr spaces) {idx : Nat} (wf : (svr.db idx).Wf dbDictEop)
    (key : Bytes) (item : FkItem) :
    Holds (svr.setDb idx (fkDictReplace dbDictEop (svr.db idx) key item).2)
      (Function.update spaces idx ((spaces idx).put key item.value)) := by
  refine holds.setDb idx ?_
  rw [dbMap_replace wf, update_eq, holds.values]

theorem add (holds : Holds svr spaces) {idx : Nat} (wf : (svr.db idx).Wf dbDictEop)
    (absent : (spaces idx).values key = none) (item : FkItem) :
    Holds (svr.setDb idx (fkDictAdd dbDictEop (svr.db idx) key item).2)
      (Function.update spaces idx ((spaces idx).put key item.value)) := by
  refine holds.setDb idx ?_
  rw [← holds.values] at absent
  rw [dbMap_add_absent wf absent, update_eq, holds.values]

theorem put (holds : Holds svr spaces) {idx : Nat} (wf : (svr.db idx).Wf dbDictEop)
    (there : (spaces idx).values key ≠ none) (item : FkItem) :
    Holds (svr.setDb idx (fkDictPut dbDictEop (svr.db idx) key item))
      (Function.update spaces idx ((spaces idx).put key item.value)) := by
  refine holds.setDb idx ?_
  rw [← holds.values] at there
  rw [dbMap_put_present wf there, update_eq, holds.values]

/-- `fk_dict_remove` on the database. -/
theorem dropValue (holds : Holds svr spaces) {idx : Nat} (wf : (svr.db idx).Wf dbDictEop)
    (key : Bytes) :
    Holds (svr.setDb idx (fkDictRemove dbDictEop (svr.db idx) key).2)
      (Function.update spaces idx ((spaces idx).dropValue key)) := by
  refine holds.setDb idx ?_
  rw [dbMap_remove wf, erase_eq, holds.values]

theorem setDeadline (holds : Holds svr spaces) {idx : Nat} (wf : (svr.expdb idx).Wf dbDictEop)
    (key : Bytes) (deadline : Int) :
    Holds (svr.setExpdb idx (fkDictReplace dbDictEop (svr.expdb idx) key (.num deadline)).2)
      (Function.update spaces idx ((spaces idx).setDeadline key deadline)) := by
  refine holds.setExpdb idx fun wanted => ?_
  have replaced := (fkDictReplace_spec dbDictEop_lawful wf key (.num deadline)).2.2
  rw [update_eq] at replaced
  rw [replaced]
  by_cases same : wanted = key
  · rw [same, Function.update_self, Function.update_self]
    rfl
  · rw [Function.update_of_ne same, Function.update_of_ne same]
    exact holds.deadlines idx wanted

theorem dropDeadline (holds : Holds svr spaces) {idx : Nat} (wf : (svr.expdb idx).Wf dbDictEop)
    (key : Bytes) :
    Holds (svr.setExpdb idx (fkDictRemove dbDictEop (svr.expdb idx) key).2)
      (Function.update spaces idx ((spaces idx).dropDeadline key)) := by
  refine holds.setExpdb idx fun wanted => ?_
  have removed := (fkDictRemove_spec dbDictEop_lawful wf key).2.2
  rw [erase_eq] at removed
  rw [removed]
  by_cases same : wanted = key
  · rw [same, Function.update_self, Function.update_self]
    rfl
  · rw [Function.update_of_ne same, Function.update_of_ne same]
    exact holds.deadlines idx wanted

/-- Both dictionaries of a database lose the key. -/
theorem removeKey (holds : Holds svr spaces) {idx : Nat} (dbWf : (svr.db idx).Wf dbDictEop)
    (expdbWf : (svr.expdb idx).Wf dbDictEop) (key : Bytes) :
    Holds (svr.removeKey idx key) (Function.update spaces idx ((spaces idx).remove key)) := by
  have dropped := holds.dropValue dbWf key
  have removed := @dropDeadline _ _ dropped idx expdbWf key
  rw [Function.update_idem, Function.update_self] at removed
  exact removed

/-- Both dictionaries of a database are emptied. -/
theorem flush (holds : Holds svr spaces) (idx : Nat) (first second : FkDb) :
    Holds ((svr.setDb idx (fkDictEmpty first)).setExpdb idx (fkDictEmpty second))
      (Function.update spaces idx .empty) := by
  have values : dbMap (fkDictEmpty first) = fun _ => none := by
    funext key
    rw [dbMap, fkDictEmpty, fkDictGet_init dbDictEop_lawful]
    rfl
  have deadlines : ∀ key, fkDictGet dbDictEop (fkDictEmpty second) key =
      ((fun _ => none : Bytes → Option Int) key).map FkItem.num := by
    intro key
    rw [fkDictEmpty, fkDictGet_init dbDictEop_lawful]
    rfl
  have both := (holds.setDb idx values).setExpdb idx deadlines
  rw [Function.update_idem, Function.update_self] at both
  exact both

end Holds

theorem removeKey_spaces {good : Bytes → Prop} {svr : FkSvr} (ok : SvrOk good svr)
    (timed : svr.Timed) (idx : Nat) (key : Bytes) :
    (svr.removeKey idx key).Timed ∧
      (svr.removeKey idx key).spaces = Function.update svr.spaces idx
      ((svr.spaces idx).remove key) := by
  have holds := Holds.removeKey timed.holds (ok.dbWf idx) (ok.expdbWf idx) key
  exact ⟨holds.timed, holds.spaces_eq⟩

/-! ## What a handler refines -/

/-- The clock readings that are still to come. -/
def Work.clockOn (work : Work) : Nat → Int :=
  fun reading => work.svr.clock (work.svr.readings + reading)

/-- What no handler changes on the server. -/
def FkSvr.frame (svr : FkSvr) :
    Nat × Int × Bool × List (List Bytes) × (Nat → Int) × (Nat → UInt8) :=
  (svr.dbcnt, svr.savePid, svr.blogOn, svr.blog, svr.clock, svr.junk)

/-- The answer of the command in this work. -/
def Work.answer (work : Work) (spaces : Nat → Keyspace) (cmd : Cmd) : Option Answer :=
  cmd.run work.svr.dbcnt work.clockOn (spaces work.out.dbIdx)

/-- The work after a command, apart from the write buffer. -/
structure Leaves (work : Work) (spaces : Nat → Keyspace) (cmd : Cmd) (answer : Answer)
    (after : Work) : Prop where
  holds : Holds after.svr (cmd.after work.svr.dbcnt work.out.dbIdx spaces answer.space)
  frame : after.svr.frame = work.svr.frame
  readings : after.svr.readings = work.svr.readings + answer.readings
  type : after.out.type = work.out.type
  idx : after.out.dbIdx = cmd.selects work.svr.dbcnt work.out.dbIdx

/-- The call ends as the calls of its replies end. -/
def Ends (act : Act Work Unit) (work : Work) (spaces : Nat → Keyspace) (cmd : Cmd)
    (answer : Answer) :
    Outcome FkBuf Unit → Prop
  | .ok _ wbuf =>
      ∃ after, act work = .ok () (after.withWbuf wbuf) ∧ Leaves work spaces cmd answer after
  | .err wbuf => ∃ count part after, work.answer spaces (cmd.cut count) = some part ∧
      act work = .err (after.withWbuf wbuf) ∧ Leaves work spaces (cmd.cut count) part after
  | .fault => act work = .fault

/-- The call does what the command says, as far as its replies are accepted. -/
def Refines (act : Act Work Unit) (work : Work) (spaces : Nat → Keyspace) (cmd : Cmd) : Prop :=
  match work.answer spaces cmd with
  | none => act work = .fault
  | some answer =>
      Ends act work spaces cmd answer (queueAll work.svr.junk answer.reply.calls work.out.wbuf)

section Refines

variable {act : Act Work Unit} {work after : Work} {spaces : Nat → Keyspace} {cmd : Cmd}
  {answer : Answer}

theorem refines_of_ends (ran : work.answer spaces cmd = some answer)
    (ends : Ends act work spaces cmd answer
      (queueAll work.svr.junk answer.reply.calls work.out.wbuf)) :
    Refines act work spaces cmd := by
  unfold Refines
  rw [ran]
  exact ends

/-- A call that changes the work and then makes the calls of its reply. -/
theorem refines_of_sendAll (ran : work.answer spaces cmd = some answer) (uncut : cmd.cut 0 = cmd)
    (leaves : Leaves work spaces cmd answer after) (wbuf : after.out.wbuf = work.out.wbuf)
    (called : act work = sendAll answer.reply.calls after) : Refines act work spaces cmd := by
  have junk : after.svr.junk = work.svr.junk := by
    have frame := leaves.frame
    simp only [FkSvr.frame, Prod.mk.injEq] at frame
    exact frame.2.2.2.2.2
  rw [sendAll_apply, wbuf, junk] at called
  refine refines_of_ends ran ?_
  cases queued : queueAll work.svr.junk answer.reply.calls work.out.wbuf with
  | ok value wbuf =>
      rw [queued] at called
      exact ⟨after, called, leaves⟩
  | err wbuf =>
      rw [queued] at called
      refine ⟨0, answer, after, ?_, called, ?_⟩
      · rw [uncut]
        exact ran
      · rw [uncut]
        exact leaves
  | fault =>
      rw [queued] at called
      exact called

/-- A command that changes its own keyspace only. -/
theorem leaves_own {svr : FkSvr}
    (own : ∀ space, cmd.after work.svr.dbcnt work.out.dbIdx spaces space =
      Function.update spaces work.out.dbIdx space)
    (stays : cmd.selects work.svr.dbcnt work.out.dbIdx = work.out.dbIdx)
    (holds : Holds svr (Function.update spaces work.out.dbIdx answer.space))
    (frame : svr.frame = work.svr.frame)
    (readings : svr.readings = work.svr.readings + answer.readings) :
    Leaves work spaces cmd answer ⟨svr, work.out⟩ where
  holds := by
    rw [own]
    exact holds
  frame := frame
  readings := readings
  type := rfl
  idx := stays.symm

/-- The commands that work on their own keyspace and make all calls at the end. -/
def Cmd.plain : Cmd → Bool
  | .flushall | .select _ | .pop _ _ | .mget _ => false
  | _ => true

theorem Cmd.plain_spec (plain : cmd.plain = true) (dbcnt idx : Nat) (spaces : Nat → Keyspace) :
    cmd.cut 0 = cmd ∧ cmd.selects dbcnt idx = idx ∧
      ∀ space, cmd.after dbcnt idx spaces space = Function.update spaces idx space := by
  cases cmd with
  | flushall => cases plain
  | select => cases plain
  | pop => cases plain
  | mget => cases plain
  | _ => exact ⟨rfl, rfl, fun _ => rfl⟩

/-- A plain command that changes the server and then makes the calls of its reply. -/
theorem refines_plain {svr : FkSvr} (plain : cmd.plain = true)
    (called : act work = sendAll answer.reply.calls ⟨svr, work.out⟩)
    (ran : work.answer spaces cmd = some answer)
    (holds : Holds svr (Function.update spaces work.out.dbIdx answer.space))
    (frame : svr.frame = work.svr.frame)
    (readings : svr.readings = work.svr.readings + answer.readings) :
    Refines act work spaces cmd := by
  obtain ⟨uncut, stays, own⟩ := Cmd.plain_spec plain work.svr.dbcnt work.out.dbIdx spaces
  exact refines_of_sendAll ran uncut (leaves_own own stays holds frame readings) rfl called

/-- The same with a single call. -/
theorem refines_call {svr : FkSvr} (rsp : Rsp) (plain : cmd.plain = true)
    (called : act work = rsp.send ⟨svr, work.out⟩) (ran : work.answer spaces cmd = some answer)
    (calls : answer.reply.calls = [rsp])
    (holds : Holds svr (Function.update spaces work.out.dbIdx answer.space))
    (frame : svr.frame = work.svr.frame)
    (readings : svr.readings = work.svr.readings + answer.readings) :
    Refines act work spaces cmd := by
  refine refines_plain plain ?_ ran holds frame readings
  rw [calls, sendAll_single]
  exact called

/-- A plain command that only replies. -/
theorem refines_reply (reply : Reply) (plain : cmd.plain = true) (holds : Holds work.svr spaces)
    (called : act work = sendAll reply.calls work)
    (ran : work.answer spaces cmd = some ⟨reply, spaces work.out.dbIdx, 0⟩) :
    Refines act work spaces cmd := by
  refine refines_plain plain called ran ?_ rfl rfl
  rw [Function.update_eq_self]
  exact holds

/-- The same with a single call. -/
theorem refines_say (reply : Reply) (rsp : Rsp) (plain : cmd.plain = true)
    (holds : Holds work.svr spaces) (called : act work = rsp.send work)
    (ran : work.answer spaces cmd = some ⟨reply, spaces work.out.dbIdx, 0⟩)
    (calls : reply.calls = [rsp]) : Refines act work spaces cmd := by
  refine refines_reply reply plain holds ?_ ran
  rw [calls, sendAll_single]
  exact called

end Refines

end Freekick
