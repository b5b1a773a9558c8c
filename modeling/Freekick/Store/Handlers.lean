import Freekick.Store.Refine

/-!
# The handlers one by one

Every handler refines its command.  Most of them change the database and then make the
calls of their reply; a pop replies first, and `MGET` does both in turns.
-/

namespace Freekick

open Lib.Call Lib.KeyedMap

section Handlers

variable {svr : FkSvr} {out : FkConnOut} {spaces : Nat → Keyspace} {name key : Bytes}

/-! ## `fk_svr_str.c` without expiry -/

theorem fkCmdSet_refines {value : Bytes} (wf : SvrWf svr) (holds : Holds svr spaces) :
    Refines (fkCmdSet [name, key, value]) ⟨svr, out⟩ spaces (.set key value) :=
  refines_call (.status fkRspOk) rfl rfl rfl rfl
    (holds.replace (wf.dbWf out.dbIdx) key (.str value)) rfl rfl

theorem fkCmdSetnx_refines {value : Bytes} (wf : SvrWf svr) (holds : Holds svr spaces) :
    Refines (fkCmdSetnx [name, key, value]) ⟨svr, out⟩ spaces (.setnx key value) := by
  have called : fkCmdSetnx [name, key, value] ⟨svr, out⟩ =
      if (fkDictGet dbDictEop (svr.db out.dbIdx) key).isSome then fkConnAddIntRsp 0 ⟨svr, out⟩
      else fkConnAddIntRsp 1
        ⟨svr.setDb out.dbIdx (fkDictAdd dbDictEop (svr.db out.dbIdx) key (.str value)).2, out⟩ := by
    change (if (fkDictGet dbDictEop (svr.db out.dbIdx) key).isSome then fkConnAddIntRsp 0 else _ :
      Act Work Unit) ⟨svr, out⟩ = _
    split <;> rfl
  rw [holds.isSome] at called
  by_cases there : ((spaces out.dbIdx).values key).isSome = true
  · rw [if_pos there] at called
    exact refines_say (.int 0) (.int 0) rfl holds called (if_pos there) rfl
  · rw [if_neg there] at called
    have absent : (spaces out.dbIdx).values key = none := Option.not_isSome_iff_eq_none.mp there
    exact refines_call (.int 1) rfl called (if_neg there) rfl
      (holds.add (wf.dbWf out.dbIdx) absent (.str value)) rfl rfl

theorem fkCmdSetex_refines {exp value : Bytes} (wf : SvrWf svr) (holds : Holds svr spaces) :
    Refines (fkCmdSetex [name, key, exp, value]) ⟨svr, out⟩ spaces (.setex key exp value) := by
  have read : Holds svr.tick spaces := ⟨holds.values, holds.deadlines⟩
  have written := read.replace (wf.dbWf out.dbIdx) key (.str value)
  have timed := written.setDeadline (wf.expdbWf out.dbIdx) key
    (toInt64 (strtol exp * 1000 + svr.clock svr.readings))
  rw [Function.update_idem, Function.update_self] at timed
  exact refines_call (.status fkRspOk) rfl rfl rfl rfl timed rfl rfl

/-- The loop of `fk_cmd_mset`. -/
theorem putLoop_holds (pairs : List (Bytes × Bytes)) (wf : (svr.db out.dbIdx).Wf dbDictEop)
    (holds : Holds svr spaces) :
    ∃ changed, Act.forEach (fun pair : Bytes × Bytes => dbReplace pair.1 (.str pair.2)) pairs
      ⟨svr, out⟩ =
        .ok () ⟨changed, out⟩ ∧
      Holds changed (Function.update spaces out.dbIdx ((spaces out.dbIdx).putAll pairs)) ∧
      changed.frame = svr.frame ∧ changed.readings = svr.readings := by
  induction pairs generalizing svr spaces with
  | nil =>
      refine ⟨svr, rfl, ?_, rfl, rfl⟩
      rw [Keyspace.putAll, List.foldl_nil, Function.update_eq_self]
      exact holds
  | cons pair rest ih =>
      have replacedWf : ((svr.setDb out.dbIdx (fkDictReplace dbDictEop (svr.db out.dbIdx) pair.1
          (.str pair.2)).2).db out.dbIdx).Wf dbDictEop := by
        rw [FkSvr.db_setDb_same]
        exact (fkDictReplace_spec dbDictEop_lawful wf pair.1 (.str pair.2)).2.1
      obtain ⟨changed, looped, stands, frame, readings⟩ :=
        ih replacedWf (holds.replace wf pair.1 (.str pair.2))
      rw [Function.update_idem, Function.update_self] at stands
      exact ⟨changed, looped, stands, frame, readings⟩

theorem fkCmdMset_refines {rest : List Bytes} (wf : SvrWf svr) (holds : Holds svr spaces)
    (even : rest.length % 2 = 0) :
    Refines (fkCmdMset (name :: rest)) ⟨svr, out⟩ spaces (.mset (pairs rest)) := by
  obtain ⟨changed, looped, stands, frame, readings⟩ :=
    putLoop_holds (pairs rest) (wf.dbWf out.dbIdx) holds
  have count : (name :: rest).length - 1 = rest.length := rfl
  have called : fkCmdMset (name :: rest) ⟨svr, out⟩ = fkConnAddStatusRsp fkRspOk
      ⟨changed, out⟩ := by
    unfold fkCmdMset
    rw [count, if_neg (not_not.mpr even)]
    exact Act.bind_ok looped
  exact refines_call (.status fkRspOk) rfl called rfl rfl stands frame readings

theorem fkCmdMset_odd {rest : List Bytes} (holds : Holds svr spaces) (odd : rest.length % 2 ≠ 0) :
    Refines (fkCmdMset (name :: rest)) ⟨svr, out⟩ spaces (.refused fkRspArgcErr) := by
  have count : (name :: rest).length - 1 = rest.length := rfl
  refine refines_say (.error fkRspArgcErr) (.error fkRspArgcErr) rfl holds ?_ rfl rfl
  unfold fkCmdMset
  rw [count, if_pos odd]
  rfl

/-! ## `fk_svr_db.c` -/

/-- A key that comes first is counted and then missing. -/
theorem present_cons (space : Keyspace) (key : Bytes) (rest : List Bytes) :
    space.present (key :: rest) =
      (if (space.values key).isSome then 1 else 0) + (space.dropValue key).present rest := by
  have others : (rest.toFinset.filter fun other => ((space.dropValue key).values other).isSome) =
      (rest.toFinset.filter fun other => (space.values other).isSome).erase key := by
    ext other
    rw [Finset.mem_erase, Finset.mem_filter, Finset.mem_filter, Keyspace.dropValue]
    by_cases same : other = key
    · simp [same]
    · simp [same]
  unfold Keyspace.present
  rw [others, List.toFinset_cons, Finset.filter_insert]
  split
  · rw [← Finset.card_erase_add_one (Finset.mem_insert_self key _), Finset.erase_insert_eq_erase,
      Nat.add_comm]
  · next absent =>
      rw [Finset.erase_eq_of_notMem, Nat.zero_add]
      intro member
      exact absent (Finset.mem_filter.mp member).2

theorem delLoop_holds (keys : List Bytes) (deleted : Nat) (wf : (svr.db out.dbIdx).Wf dbDictEop)
    (holds : Holds svr spaces) :
    ∃ changed, delLoop keys deleted ⟨svr, out⟩ =
        .ok (deleted + (spaces out.dbIdx).present keys) ⟨changed, out⟩ ∧
      Holds changed (Function.update spaces out.dbIdx ((spaces out.dbIdx).drop keys)) ∧
      changed.frame = svr.frame ∧ changed.readings = svr.readings := by
  induction keys generalizing svr spaces deleted with
  | nil =>
      refine ⟨svr, rfl, ?_, rfl, rfl⟩
      have same : (spaces out.dbIdx).drop [] = spaces out.dbIdx := by
        simp [Keyspace.drop]
      rw [same, Function.update_eq_self]
      exact holds
  | cons key rest ih =>
      have removedWf : ((svr.setDb out.dbIdx (fkDictRemove dbDictEop (svr.db out.dbIdx) key).2).db
          out.dbIdx).Wf dbDictEop := by
        rw [FkSvr.db_setDb_same]
        exact (fkDictRemove_spec dbDictEop_lawful wf key).2.1
      have removed : dbRemove key ⟨svr, out⟩ = .ok ((spaces out.dbIdx).values key).isSome
          ⟨svr.setDb out.dbIdx (fkDictRemove dbDictEop (svr.db out.dbIdx) key).2, out⟩ := by
        rw [← holds.isSome]
        rfl
      obtain ⟨changed, looped, stands, frame, readings⟩ :=
        ih (if ((spaces out.dbIdx).values key).isSome then deleted + 1 else deleted) removedWf
          (holds.dropValue wf key)
      rw [Function.update_idem, Function.update_self] at stands
      refine ⟨changed, (Act.bind_ok removed).trans (looped.trans ?_), ?_, frame, readings⟩
      · rw [Function.update_self, present_cons]
        congr 1
        split <;> omega
      · have same : (spaces out.dbIdx).drop (key :: rest) =
            ((spaces out.dbIdx).dropValue key).drop rest := by
          unfold Keyspace.drop Keyspace.dropValue
          congr 1
          funext other
          by_cases equal : other = key
          · simp [equal]
          · simp [equal]
        rw [same]
        exact stands

theorem fkCmdDel_refines {keys : List Bytes} (wf : SvrWf svr) (holds : Holds svr spaces) :
    Refines (fkCmdDel (name :: keys)) ⟨svr, out⟩ spaces (.del keys) := by
  obtain ⟨changed, looped, stands, frame, readings⟩ :=
    delLoop_holds keys 0 (wf.dbWf out.dbIdx) holds
  have called : fkCmdDel (name :: keys) ⟨svr, out⟩ =
      fkConnAddIntRsp ((0 + (spaces out.dbIdx).present keys : Nat) : Int) ⟨changed, out⟩ :=
        Act.bind_ok looped
  rw [Nat.zero_add] at called
  exact refines_call (.int ((spaces out.dbIdx).present keys)) rfl called rfl rfl stands
    frame readings

theorem fkCmdFlushdb_refines (args : List Bytes) (holds : Holds svr spaces) :
    Refines (fkCmdFlushdb args) ⟨svr, out⟩ spaces .flushdb :=
  refines_call (.status fkRspOk) rfl rfl rfl rfl (holds.flush out.dbIdx _ _) rfl rfl

theorem flushLoop_holds (idxs : List Nat) (holds : Holds svr spaces) :
    ∃ changed, Act.forEach flushOne idxs ⟨svr, out⟩ = .ok () ⟨changed, out⟩ ∧
      Holds changed (fun other => if other ∈ idxs then .empty else spaces other) ∧
      changed.frame = svr.frame ∧ changed.readings = svr.readings := by
  induction idxs generalizing svr spaces with
  | nil => exact ⟨svr, rfl, by simpa using holds, rfl, rfl⟩
  | cons idx rest ih =>
      obtain ⟨changed, looped, stands, frame, readings⟩ :=
        ih (holds.flush idx (svr.db idx) (svr.expdb idx))
      have same : (fun other => if other ∈ idx :: rest then Keyspace.empty else spaces other) =
          fun other => if other ∈ rest then Keyspace.empty
            else Function.update spaces idx .empty other := by
        funext other
        by_cases equal : other = idx
        · simp [equal]
        · simp [equal]
      rw [same]
      exact ⟨changed, looped, stands, frame, readings⟩

theorem fkCmdFlushall_refines (args : List Bytes) (holds : Holds svr spaces) :
    Refines (fkCmdFlushall args) ⟨svr, out⟩ spaces .flushall := by
  obtain ⟨changed, looped, stands, frame, readings⟩ :=
    @flushLoop_holds svr out spaces (List.range svr.dbcnt) holds
  have called : fkCmdFlushall args ⟨svr, out⟩ = fkConnAddStatusRsp fkRspOk ⟨changed, out⟩ :=
    Act.bind_ok looped
  have leaves : Leaves ⟨svr, out⟩ spaces .flushall ⟨.status fkRspOk, .empty, 0⟩ ⟨changed, out⟩ := by
    refine ⟨?_, frame, readings, rfl, rfl⟩
    simp only [List.mem_range] at stands
    exact stands
  refine refines_of_sendAll rfl rfl leaves rfl (called.trans ?_)
  exact (congrFun (sendAll_single (.status fkRspOk)) _).symm

theorem fkCmdExists_refines (holds : Holds svr spaces) :
    Refines (fkCmdExists [name, key]) ⟨svr, out⟩ spaces (.existing key) := by
  refine refines_say (.int (if ((spaces out.dbIdx).values key).isSome then 1 else 0))
    (.int (if ((spaces out.dbIdx).values key).isSome then 1 else 0)) rfl holds ?_ rfl rfl
  rw [← holds.isSome]
  rfl

theorem fkCmdSave_refines (args : List Bytes) (holds : Holds svr spaces) :
    Refines (fkCmdSave args) ⟨svr, out⟩ spaces .save := by
  obtain ⟨dbFile, saved⟩ := fkKdbSave_svr (junkRt svr.junk) svr
  by_cases idle : svr.savePid = -1
  · have called : fkCmdSave args ⟨svr, out⟩ =
        fkConnAddStatusRsp fkRspOk ⟨(fkKdbSave (junkRt svr.junk) svr).2, out⟩ := by
      unfold fkCmdSave
      rw [Act.read_bind, if_pos idle]
      rfl
    rw [saved] at called
    have stands : Holds { svr with dbFile := dbFile }
        (Function.update spaces out.dbIdx (spaces out.dbIdx)) := by
      rw [Function.update_eq_self]
      exact ⟨holds.values, holds.deadlines⟩
    exact refines_call (.status fkRspOk) rfl called rfl rfl stands rfl rfl
  · refine refines_say (.status fkRspOk) (.status fkRspOk) rfl holds ?_ rfl rfl
    unfold fkCmdSave
    rw [Act.read_bind, if_neg idle]
    rfl

theorem fkCmdSelect_refines {text : Bytes} (holds : Holds svr spaces) :
    Refines (fkCmdSelect [name, text]) ⟨svr, out⟩ spaces (.select text) := by
  have called : fkCmdSelect [name, text] ⟨svr, out⟩ =
      if Cmd.OutOfRange svr.dbcnt text then fkConnAddErrorRsp fkRspErr ⟨svr, out⟩
      else fkConnAddStatusRsp fkRspOk ⟨svr, { out with dbIdx := (atoi text).toNat }⟩ := by
    change (if Cmd.OutOfRange svr.dbcnt text then fkConnAddErrorRsp fkRspErr else _ : Act Work Unit)
      ⟨svr, out⟩ = _
    split <;> rfl
  have stands : Holds svr (Function.update spaces out.dbIdx (spaces out.dbIdx)) := by
    rw [Function.update_eq_self]
    exact holds
  by_cases range : Cmd.OutOfRange svr.dbcnt text
  · rw [if_pos range] at called
    have leaves : Leaves ⟨svr, out⟩ spaces (.select text) ⟨.error fkRspErr, spaces out.dbIdx, 0⟩
        ⟨svr, out⟩ :=
      ⟨stands, rfl, rfl, rfl, (if_pos range).symm⟩
    refine refines_of_sendAll ?_ rfl leaves rfl
      (called.trans (congrFun (sendAll_single (.error fkRspErr)) _).symm)
    change some (Answer.mk (if Cmd.OutOfRange svr.dbcnt text then _ else _) _ _) = _
    rw [if_pos range]
  · rw [if_neg range] at called
    have leaves : Leaves ⟨svr, out⟩ spaces (.select text) ⟨.status fkRspOk, spaces out.dbIdx, 0⟩
        ⟨svr, { out with dbIdx := (atoi text).toNat }⟩ :=
      ⟨stands, rfl, rfl, rfl, (if_neg range).symm⟩
    refine refines_of_sendAll ?_ rfl leaves rfl
      (called.trans (congrFun (sendAll_single (.status fkRspOk)) _).symm)
    change some (Answer.mk (if Cmd.OutOfRange svr.dbcnt text then _ else _) _ _) = _
    rw [if_neg range]

/-! ## `GET` and `MGET` -/

/-- What a call leaves that looked at keys of the selected database. -/
structure Looks {A : Type} (svr : FkSvr) (idx : Nat) (spaces : Nat → Keyspace)
    (looked : Looked A) (changed : FkSvr) : Prop where
  wf : SvrWf changed
  holds : Holds changed (Function.update spaces idx looked.left)
  frame : changed.frame = svr.frame
  readings : changed.readings = svr.readings + looked.readings

/-- `fk_handle_expired_key` on a key with a deadline. -/
theorem fkHandleExpiredKey_timed {deadline : Int}
    (limit : fkDictGet dbDictEop (svr.expdb out.dbIdx) key = some (.num deadline)) :
    fkHandleExpiredKey key ⟨svr, out⟩ =
      if deadline < svr.clock svr.readings then .ok true ⟨svr.tick.removeKey out.dbIdx key, out⟩
      else .ok false ⟨svr.tick, out⟩ := by
  unfold fkHandleExpiredKey
  rw [Act.read_bind]
  dsimp only
  rw [limit]
  change (if deadline < svr.clock svr.readings then _ else _ : Act Work Bool) ⟨svr.tick, out⟩ = _
  split <;> rfl

theorem fkHandleExpiredKey_untimed (limit : fkDictGet dbDictEop (svr.expdb out.dbIdx) key = none) :
    fkHandleExpiredKey key ⟨svr, out⟩ = .ok false ⟨svr, out⟩ := by
  unfold fkHandleExpiredKey
  rw [Act.read_bind]
  dsimp only
  rw [limit]
  rfl

theorem fkHandleExpiredKey_looks (wf : SvrWf svr) (holds : Holds svr spaces) (key : Bytes) :
    let looked := (spaces out.dbIdx).look (Work.clockOn ⟨svr, out⟩) key
    ∃ expired changed, fkHandleExpiredKey key ⟨svr, out⟩ = .ok expired ⟨changed, out⟩ ∧
      looked.found = (if expired then none else (spaces out.dbIdx).values key) ∧
      (expired = false → changed.db = svr.db) ∧ Looks svr out.dbIdx spaces looked changed := by
  have lookup := holds.deadlines out.dbIdx key
  have read : Holds svr.tick spaces := ⟨holds.values, holds.deadlines⟩
  have same : Function.update spaces out.dbIdx (spaces out.dbIdx) = spaces :=
    Function.update_eq_self ..
  unfold Keyspace.look
  cases limit : (spaces out.dbIdx).deadlines key with
  | none =>
      rw [limit] at lookup
      refine ⟨false, svr, fkHandleExpiredKey_untimed lookup, rfl, fun _ => rfl, wf, ?_, rfl, rfl⟩
      rw [same]
      exact holds
  | some deadline =>
      rw [limit] at lookup
      have called := fkHandleExpiredKey_timed lookup
      dsimp only
      by_cases overdue : deadline < svr.clock svr.readings
      · rw [if_pos overdue] at called
        rw [if_pos (show deadline < Work.clockOn ⟨svr, out⟩ 0 from overdue)]
        refine ⟨true, _, called, rfl, ?_, ?_, ?_, rfl, rfl⟩
        · intro impossible
          cases impossible
        · exact wf.tick.removeKey out.dbIdx key
        · exact read.removeKey (wf.dbWf out.dbIdx) (wf.expdbWf out.dbIdx) key
      · rw [if_neg overdue] at called
        rw [if_neg (show ¬ deadline < Work.clockOn ⟨svr, out⟩ 0 from overdue)]
        refine ⟨false, _, called, rfl, fun _ => rfl, wf.tick, ?_, rfl, rfl⟩
        rw [same]
        exact read

/-- A look at a key that may be expired. -/
theorem getAlive_looks (wf : SvrWf svr) (holds : Holds svr spaces) (key : Bytes) :
    let looked := (spaces out.dbIdx).look (Work.clockOn ⟨svr, out⟩) key
    ∃ found changed, getAlive key ⟨svr, out⟩ = .ok found ⟨changed, out⟩ ∧
      found.map FkItem.value = looked.found ∧ Looks svr out.dbIdx spaces looked changed := by
  intro looked
  obtain ⟨expired, changed, called, found, same, looks⟩ :=
    @fkHandleExpiredKey_looks svr out spaces wf holds key
  cases expired with
  | true => exact ⟨none, changed, Act.bind_ok called, found.symm, looks⟩
  | false =>
      refine ⟨fkDictGet dbDictEop (changed.db out.dbIdx) key, changed,
        Act.bind_ok called, ?_, looks⟩
      rw [same rfl]
      exact (holds.get out.dbIdx key).trans found.symm

theorem fkCmdGet_refines (wf : SvrWf svr) (holds : Holds svr spaces) :
    Refines (fkCmdGet [name, key]) ⟨svr, out⟩ spaces (.get key) := by
  obtain ⟨found, changed, called, value, looks⟩ := @getAlive_looks svr out spaces wf holds key
  have replied : fkCmdGet [name, key] ⟨svr, out⟩ =
      sendAll (getReply (found.map FkItem.value)).calls ⟨changed, out⟩ := by
    refine (Act.bind_ok called).trans ?_
    cases found with
    | none => exact (congrFun (sendAll_single (.bulk fkRspNil)) _).symm
    | some item =>
        cases item with
        | str bytes => exact (congrFun (sendAll_bulk bytes) _).symm
        | _ => exact (congrFun (sendAll_single (.error fkRspTypeErr)) _).symm
  rw [value] at replied
  exact refines_plain rfl replied rfl looks.holds looks.frame looks.readings

/-- One round of `MGET`: the key is looked up and its reply is queued. -/
theorem mgetOne_looks (wf : SvrWf svr) (holds : Holds svr spaces) (key : Bytes) :
    let looked := (spaces out.dbIdx).look (Work.clockOn ⟨svr, out⟩) key
    ∃ changed, mgetOne key ⟨svr, out⟩ = sendAll (bulkCalls (looked.found.bind Value.bytes?))
      ⟨changed, out⟩ ∧ Looks svr out.dbIdx spaces looked changed := by
  intro looked
  obtain ⟨found, changed, called, value, looks⟩ := @getAlive_looks svr out spaces wf holds key
  refine ⟨changed, (Act.bind_ok called).trans ?_, looks⟩
  rw [← value]
  cases found with
  | none => exact (congrFun (sendAll_single (.bulk fkRspNil)) _).symm
  | some item =>
      cases item with
      | str bytes => exact (congrFun (sendAll_bulk bytes) _).symm
      | _ => exact (congrFun (sendAll_single (.bulk fkRspNil)) _).symm

theorem Looks.clock {A : Type} {looked : Looked A} {changed : FkSvr}
    (looks : Looks svr out.dbIdx spaces looked changed)
    (wbuf : FkBuf) : Work.clockOn ⟨changed, { out with wbuf := wbuf }⟩ =
      fun reading => Work.clockOn ⟨svr, out⟩ (looked.readings + reading) := by
  have frame := looks.frame
  simp only [FkSvr.frame, Prod.mk.injEq] at frame
  funext reading
  change changed.clock (changed.readings + reading) = svr.clock
    (svr.readings + (looked.readings + reading))
  rw [frame.2.2.2.2.1, looks.readings, Nat.add_assoc]

theorem Looks.junk {A : Type} {looked : Looked A} {changed : FkSvr}
    (looks : Looks svr out.dbIdx spaces looked changed) : changed.junk = svr.junk := by
  have frame := looks.frame
  simp only [FkSvr.frame, Prod.mk.injEq] at frame
  exact frame.2.2.2.2.2

/-- One look after the other. -/
theorem Looks.trans {A B C : Type} {first : Looked A} {second : Looked B} {both : Looked C}
    {middle changed : FkSvr} (heads : Looks svr out.dbIdx spaces first middle)
    (later : Looks middle out.dbIdx (Function.update spaces out.dbIdx first.left) second changed)
    (left : both.left = second.left) (readings : both.readings = first.readings + second.readings) :
    Looks svr out.dbIdx spaces both changed where
  wf := later.wf
  holds := by
    have holds := later.holds
    rw [Function.update_idem] at holds
    rw [left]
    exact holds
  frame := later.frame.trans heads.frame
  readings := by
    rw [later.readings, heads.readings, readings, Nat.add_assoc]

/-- The loop of `MGET`: it makes the calls for the values that are found, and has looked at
some of the keys when one is refused. -/
theorem mgetLoop_looks (keys : List Bytes) (wf : SvrWf svr) (holds : Holds svr spaces) :
    let looked := (spaces out.dbIdx).lookAll (Work.clockOn ⟨svr, out⟩) keys
    match queueAll svr.junk (looked.found.flatMap fun value => bulkCalls (value.bind Value.bytes?))
      out.wbuf with
    | .ok _ wbuf =>
        ∃ changed, Act.forEach mgetOne keys ⟨svr, out⟩ = .ok ()
          ⟨changed, { out with wbuf := wbuf }⟩ ∧
        Looks svr out.dbIdx spaces looked changed
    | .err wbuf => ∃ count changed,
        Act.forEach mgetOne keys ⟨svr, out⟩ = .err ⟨changed, { out with wbuf := wbuf }⟩ ∧
          Looks svr out.dbIdx spaces
            ((spaces out.dbIdx).lookAll (Work.clockOn ⟨svr, out⟩) (keys.take count)) changed
    | .fault => Act.forEach mgetOne keys ⟨svr, out⟩ = .fault := by
  induction keys generalizing svr out spaces with
  | nil =>
      refine ⟨svr, rfl, wf, ?_, rfl, rfl⟩
      change Holds svr (Function.update spaces out.dbIdx (spaces out.dbIdx))
      rw [Function.update_eq_self]
      exact holds
  | cons key rest ih =>
      intro looked
      obtain ⟨middle, one, looks⟩ := @mgetOne_looks svr out spaces wf holds key
      have calls :
          (looked.found.flatMap fun value => bulkCalls (value.bind Value.bytes?)) = _ ++ _ :=
        List.flatMap_cons ..
      rw [calls, queueAll_append]
      rw [sendAll_apply, looks.junk] at one
      change mgetOne key ⟨svr, out⟩ = (queueAll svr.junk _ out.wbuf).within _ at one
      cases queued : queueAll svr.junk
          (bulkCalls (((spaces out.dbIdx).look (Work.clockOn ⟨svr, out⟩) key).found.bind
            Value.bytes?)) out.wbuf with
      | fault =>
          rw [queued] at one
          rw [Act.bind_fault queued]
          exact Act.bind_fault one
      | err wbuf =>
          rw [queued] at one
          rw [Act.bind_err queued]
          refine ⟨1, middle, Act.bind_err one, ?_⟩
          exact ⟨looks.wf, looks.holds, looks.frame, looks.readings⟩
      | ok value wbuf =>
          rw [queued] at one
          rw [Act.bind_ok queued]
          have looped : Act.forEach mgetOne (key :: rest) ⟨svr, out⟩ =
              Act.forEach mgetOne rest ⟨middle, { out with wbuf := wbuf }⟩ := Act.bind_ok one
          have later := @ih middle { out with wbuf := wbuf } _ looks.wf looks.holds
          rw [looks.junk, looks.clock, Function.update_self] at later
          rw [looped]
          dsimp only at later ⊢
          split at later
          · obtain ⟨changed, ended, second⟩ := later
            exact ⟨changed, ended, looks.trans second rfl rfl⟩
          · obtain ⟨count, changed, ended, second⟩ := later
            exact ⟨count + 1, changed, ended, looks.trans second rfl rfl⟩
          · exact later

theorem lookAll_length (clock : Nat → Int) (keys : List Bytes) (space : Keyspace) :
    (space.lookAll clock keys).found.length = keys.length := by
  induction keys generalizing clock space with
  | nil => rfl
  | cons key rest ih => exact congrArg Nat.succ (ih _ _)

/-- The header comes first; when it is refused, no key has been looked at. -/
theorem fkCmdMget_refines {keys : List Bytes} (wf : SvrWf svr) (holds : Holds svr spaces) :
    Refines (fkCmdMget (name :: keys)) ⟨svr, out⟩ spaces (.mget keys) := by
  have leaves : ∀ {part : List Bytes} {changed : FkSvr} {reply : Reply},
      Looks svr out.dbIdx spaces
        ((spaces out.dbIdx).lookAll (Work.clockOn ⟨svr, out⟩) part) changed →
        Leaves ⟨svr, out⟩ spaces (.mget part)
          ⟨reply, ((spaces out.dbIdx).lookAll (Work.clockOn ⟨svr, out⟩) part).left,
            ((spaces out.dbIdx).lookAll (Work.clockOn ⟨svr, out⟩) part).readings⟩
          ⟨changed, out⟩ :=
    fun looks => ⟨looks.holds, looks.frame, looks.readings, rfl, rfl⟩
  have calls : (Reply.multi (((spaces out.dbIdx).lookAll (Work.clockOn ⟨svr, out⟩) keys).found.map
      fun value => value.bind Value.bytes?)).calls = .mbulk keys.length ::
        ((spaces out.dbIdx).lookAll (Work.clockOn ⟨svr, out⟩) keys).found.flatMap
          fun value => bulkCalls (value.bind Value.bytes?) := by
    rw [Reply.calls, List.length_map, lookAll_length, List.flatMap_map]
  have header := Rsp.send_apply (.mbulk keys.length) ⟨svr, out⟩
  refine refines_of_ends rfl ?_
  rw [calls]
  change Ends _ _ _ _ _
    ((Rsp.queue svr.junk (.mbulk keys.length) >>= fun _ => queueAll svr.junk _) out.wbuf)
  cases queued : Rsp.queue svr.junk (.mbulk keys.length) out.wbuf with
  | fault =>
      rw [queued] at header
      rw [Act.bind_fault queued]
      exact Act.bind_fault header
  | err wbuf =>
      rw [queued] at header
      rw [Act.bind_err queued]
      have none : Looks svr out.dbIdx spaces
          ((spaces out.dbIdx).lookAll (Work.clockOn ⟨svr, out⟩) []) svr := by
        refine ⟨wf, ?_, rfl, rfl⟩
        change Holds svr (Function.update spaces out.dbIdx (spaces out.dbIdx))
        rw [Function.update_eq_self]
        exact holds
      exact ⟨0, _, ⟨svr, out⟩, rfl, Act.bind_err header, leaves none⟩
  | ok value wbuf =>
      rw [queued] at header
      rw [Act.bind_ok queued]
      have looped : fkCmdMget (name :: keys) ⟨svr, out⟩ =
          Act.forEach mgetOne keys ⟨svr, { out with wbuf := wbuf }⟩ := Act.bind_ok header
      have loop := @mgetLoop_looks svr { out with wbuf := wbuf } spaces keys wf holds
      have clock : Work.clockOn ⟨svr, { out with wbuf := wbuf }⟩ = Work.clockOn ⟨svr, out⟩ := rfl
      rw [clock] at loop
      dsimp only at loop
      generalize queueAll svr.junk _ wbuf = outcome at loop ⊢
      cases outcome with
      | ok _ final =>
          obtain ⟨changed, ended, looks⟩ := loop
          exact ⟨⟨changed, out⟩, looped.trans ended, leaves looks⟩
      | err final =>
          obtain ⟨count, changed, ended, looks⟩ := loop
          exact ⟨count, _, ⟨changed, out⟩, rfl, looped.trans ended, leaves looks⟩
      | fault => exact looped.trans loop

/-! ## `fk_svr_list.c` -/

theorem dbGet_bind {body : Option FkItem → Act Work Unit} {found : Option FkItem}
    (held : fkDictGet dbDictEop (svr.db out.dbIdx) key = found) :
    (dbGet key >>= body) ⟨svr, out⟩ = body found ⟨svr, out⟩ := by
  rw [← held]
  rfl

/-- What a search finds, as a value of the keyspace. -/
theorem Holds.found (holds : Holds svr spaces) {idx : Nat} {found : Option FkItem}
    (held : fkDictGet dbDictEop (svr.db idx) key = found) :
    (spaces idx).values key = found.map FkItem.value := by
  rw [← held]
  exact (holds.get idx key).symm

theorem answer_push {pos : ListPos} {nodes : List Bytes} {item : FkItem}
    (value : (spaces out.dbIdx).values key = some item.value) :
    Work.answer ⟨svr, out⟩ spaces (.push pos key nodes) = match item.value with
      | .list old =>
          some ⟨.int nodes.length, (spaces out.dbIdx).put key (.list (nodes.foldl pos.insert old)),
            0⟩
      | _ => some ⟨.error fkRspTypeErr, spaces out.dbIdx, 0⟩ := by
  unfold Work.answer Cmd.run
  dsimp only
  rw [value]
  cases item <;> rfl

theorem fkCmdGenericPush_refines {pos : ListPos} {nodes : List Bytes} (wf : SvrWf svr)
    (holds : Holds svr spaces) :
    Refines (fkCmdGenericPush pos (name :: key :: nodes)) ⟨svr, out⟩ spaces
      (.push pos key nodes) := by
  have count : (name :: key :: nodes).length - 2 = nodes.length := by
    simp
  have nodesOf : (name :: key :: nodes).drop 2 = nodes := rfl
  unfold fkCmdGenericPush
  rw [count, nodesOf]
  cases held : fkDictGet dbDictEop (svr.db out.dbIdx) key with
  | none =>
      have value := holds.found held
      have ran : Work.answer ⟨svr, out⟩ spaces (.push pos key nodes) = some ⟨.int nodes.length,
          (spaces out.dbIdx).put key (.list (nodes.foldl pos.insert [])), 0⟩ := by
        unfold Work.answer Cmd.run
        dsimp only
        rw [value]
        rfl
      exact refines_call (.int nodes.length) rfl
        ((getArg_bind rfl).trans ((dbGet_bind held).trans (Act.bind_ok rfl))) ran rfl
        (holds.add (wf.dbWf out.dbIdx) value (.list (nodes.foldl pos.insert []))) rfl rfl
  | some item =>
      have value := holds.found held
      have there : (spaces out.dbIdx).values key ≠ none := by
        rw [value]
        exact Option.some_ne_none _
      have ran := @answer_push svr out spaces key pos nodes item value
      cases item with
      | list old =>
          exact refines_call (.int nodes.length) rfl
            ((getArg_bind rfl).trans ((dbGet_bind held).trans (Act.bind_ok rfl))) ran rfl
            (holds.put (wf.dbWf out.dbIdx) there (.list (nodes.foldl pos.insert old))) rfl rfl
      | _ =>
          exact refines_say (.error fkRspTypeErr) (.error fkRspTypeErr) rfl holds
            ((getArg_bind rfl).trans (dbGet_bind held)) ran rfl

theorem fkCmdLlen_refines (holds : Holds svr spaces) :
    Refines (fkCmdLlen [name, key]) ⟨svr, out⟩ spaces (.llen key) := by
  refine refines_reply (llenReply ((spaces out.dbIdx).values key)) rfl holds ?_ rfl
  rw [← holds.get]
  cases held : fkDictGet dbDictEop (svr.db out.dbIdx) key with
  | none =>
      refine ((getArg_bind rfl).trans (dbGet_bind held)).trans ?_
      exact (congrFun (sendAll_single (.int 0)) _).symm
  | some item =>
      refine ((getArg_bind rfl).trans (dbGet_bind held)).trans ?_
      cases item with
      | list nodes =>
          -- the length is an `int` before it is passed on
          have wrapped : toInt32 (toInt32 nodes.length) = toInt32 nodes.length := Int.bmod_bmod ..
          have same : Rsp.send (.int (toInt32 nodes.length)) = fkConnAddIntRsp nodes.length := by
            unfold Rsp.send fkConnAddIntRsp addNumberRsp
            dsimp only
            rw [wrapped]
          have sent := congrFun (sendAll_single (.int (toInt32 nodes.length))) ⟨svr, out⟩
          rw [same] at sent
          exact sent.symm
      | _ => exact (congrFun (sendAll_single (.error fkRspTypeErr)) _).symm

/-- The reply comes before the node is removed. -/
theorem popped_refines {pos : ListPos} {node : Bytes} {nodes : List Bytes} {act : Act Work Unit}
    (wf : SvrWf svr) (holds : Holds svr spaces)
    (value : (spaces out.dbIdx).values key = some (.list nodes))
    (taken : pos.node? nodes = some node)
    (called : act ⟨svr, out⟩ =
      (addBulkAndContent node >>= fun _ => dbPut key (.list (pos.remove nodes))) ⟨svr, out⟩) :
    Refines act ⟨svr, out⟩ spaces (.pop pos key) := by
  have ran : Work.answer ⟨svr, out⟩ spaces (.pop pos key) =
      some ⟨.bulk node, (spaces out.dbIdx).put key (.list (pos.remove nodes)), 0⟩ := by
    unfold Work.answer Cmd.run
    dsimp only
    rw [value]
    dsimp only
    rw [taken]
  have there : (spaces out.dbIdx).values key ≠ none := by
    rw [value]
    exact Option.some_ne_none _
  have sent := sendAll_apply (bulkCalls (some node)) ⟨svr, out⟩
  rw [sendAll_bulk] at sent
  refine refines_of_ends ran ?_
  change Ends _ _ _ _ _ (queueAll svr.junk (bulkCalls (some node)) out.wbuf)
  cases queued : queueAll svr.junk (bulkCalls (some node)) out.wbuf with
  | ok _ wbuf =>
      rw [queued] at sent
      refine ⟨⟨svr.setDb out.dbIdx
        (fkDictPut dbDictEop (svr.db out.dbIdx) key (.list (pos.remove nodes))), out⟩,
        called.trans (Act.bind_ok sent), ?_⟩
      exact ⟨holds.put (wf.dbWf out.dbIdx) there (.list (pos.remove nodes)), rfl, rfl, rfl, rfl⟩
  | err wbuf =>
      rw [queued] at sent
      refine ⟨0, ⟨.error [], spaces out.dbIdx, 0⟩, ⟨svr, out⟩, rfl,
        called.trans (Act.bind_err sent), ?_⟩
      refine ⟨?_, rfl, rfl, rfl, rfl⟩
      change Holds svr (Function.update spaces out.dbIdx (spaces out.dbIdx))
      rw [Function.update_eq_self]
      exact holds
  | fault =>
      rw [queued] at sent
      exact called.trans (Act.bind_fault sent)

/-- A pop that finds no node only replies. -/
theorem unpopped_refines {pos : ListPos} {act : Act Work Unit} (reply : Reply) (rsp : Rsp)
    (holds : Holds svr spaces) (calls : reply.calls = [rsp])
    (ran : Work.answer ⟨svr, out⟩ spaces (.pop pos key) = some ⟨reply, spaces out.dbIdx, 0⟩)
    (called : act ⟨svr, out⟩ = rsp.send ⟨svr, out⟩) :
    Refines act ⟨svr, out⟩ spaces (.pop pos key) := by
  have stands : Holds svr (Function.update spaces out.dbIdx (spaces out.dbIdx)) := by
    rw [Function.update_eq_self]
    exact holds
  have sent := sendAll_apply [rsp] ⟨svr, out⟩
  rw [sendAll_single] at sent
  refine refines_of_ends ran ?_
  change Ends _ _ _ _ _ (queueAll svr.junk reply.calls out.wbuf)
  rw [calls]
  cases queued : queueAll svr.junk [rsp] out.wbuf with
  | ok _ wbuf =>
      rw [queued] at sent
      exact ⟨⟨svr, out⟩, called.trans sent, stands, rfl, rfl, rfl, rfl⟩
  | err wbuf =>
      rw [queued] at sent
      exact ⟨0, ⟨.error [], spaces out.dbIdx, 0⟩, ⟨svr, out⟩, rfl, called.trans sent, stands, rfl,
        rfl, rfl, rfl⟩
  | fault =>
      rw [queued] at sent
      exact called.trans sent

theorem fkCmdGenericPop_list {pos : ListPos} {nodes : List Bytes}
    (held : fkDictGet dbDictEop (svr.db out.dbIdx) key = some (.list nodes)) :
    fkCmdGenericPop pos [name, key] ⟨svr, out⟩ = (match pos.node? nodes with
      | none => fkConnAddBulkRsp fkRspNil
      | some node => addBulkAndContent node >>= fun _ => dbPut key (.list (pos.remove nodes)) :
        Act Work Unit) ⟨svr, out⟩ :=
  (getArg_bind rfl).trans (dbGet_bind held)

theorem fkCmdGenericPop_refines {pos : ListPos} (wf : SvrWf svr) (holds : Holds svr spaces) :
    Refines (fkCmdGenericPop pos [name, key]) ⟨svr, out⟩ spaces (.pop pos key) := by
  cases held : fkDictGet dbDictEop (svr.db out.dbIdx) key with
  | none =>
      have value := holds.found held
      refine unpopped_refines .nil (.bulk fkRspNil) holds rfl ?_
        ((getArg_bind rfl).trans (dbGet_bind held))
      unfold Work.answer Cmd.run
      dsimp only
      rw [value]
      rfl
  | some item =>
      have value := holds.found held
      cases item with
      | list nodes =>
          have called := @fkCmdGenericPop_list _ out name _ pos _ held
          cases taken : pos.node? nodes with
          | none =>
              rw [taken] at called
              refine unpopped_refines .nil (.bulk fkRspNil) holds rfl ?_ called
              unfold Work.answer Cmd.run
              dsimp only
              have listed : (spaces out.dbIdx).values key = some (.list nodes) := value
              rw [listed]
              simp only [taken]
          | some node =>
              rw [taken] at called
              exact popped_refines wf holds value taken called
      | _ =>
          refine unpopped_refines (.error fkRspTypeErr) (.error fkRspTypeErr) holds rfl ?_
            ((getArg_bind rfl).trans (dbGet_bind held))
          unfold Work.answer Cmd.run
          dsimp only
          rw [value]
          rfl

/-! ## `fk_svr_hash.c` and `fk_svr_zset.c` -/

theorem value_hashAdd {fields : FkDict Bytes Bytes} (wf : fields.Wf dbDictEop)
    (field value : Bytes) :
    (FkItem.dict (fkDictAdd dbDictEop fields field value).2).value =
      .hash (if (fkDictGet dbDictEop fields field).isSome then fkDictGet dbDictEop fields
        else Function.update (fkDictGet dbDictEop fields) field (some value)) := by
  refine congrArg Value.hash ?_
  by_cases absent : fkDictGet dbDictEop fields field = none
  · rw [fkDictAdd_get dbDictEop_lawful wf absent, update_eq, absent]
    rfl
  · rw [fkDictAdd_get_present dbDictEop_lawful wf absent,
      if_pos (Option.isSome_iff_ne_none.mpr absent)]

theorem fkCmdHset_found {field value : Bytes} {found : Option FkItem} :
    fkDictGet dbDictEop (svr.db out.dbIdx) key = found →
      fkCmdHset [name, key, field, value] ⟨svr, out⟩ = (match found with
      | none =>
          dbAdd key (.dict (fkDictAdd dbDictEop fkDictCreate field value).2) >>= fun _ =>
            fkConnAddIntRsp 1
      | some (.dict fields) =>
          dbPut key (.dict (fkDictAdd dbDictEop fields field value).2) >>= fun _ =>
          fkConnAddIntRsp 1
      | some _ => fkConnAddErrorRsp fkRspTypeErr : Act Work Unit) ⟨svr, out⟩ := fun held =>
  (getArg_bind rfl).trans ((getArg_bind rfl).trans ((getArg_bind rfl).trans (dbGet_bind held)))

theorem fkCmdHset_refines {field value : Bytes} (wf : SvrWf svr) (holds : Holds svr spaces) :
    Refines (fkCmdHset [name, key, field, value]) ⟨svr, out⟩ spaces (.hset key field value) := by
  cases held : fkDictGet dbDictEop (svr.db out.dbIdx) key with
  | none =>
      have found := holds.found held
      have added := @value_hashAdd fkDictCreate fkDictInit_wf field value
      rw [fkDictCreate, fkDictGet_init dbDictEop_lawful] at added
      have ran : Work.answer ⟨svr, out⟩ spaces (.hset key field value) = some
          ⟨.int 1, (spaces out.dbIdx).put key
            (FkItem.dict (fkDictAdd dbDictEop fkDictCreate field value).2).value, 0⟩ := by
        unfold Work.answer Cmd.run
        dsimp only
        rw [found, fkDictCreate, added]
        rfl
      exact refines_call (.int 1) rfl ((fkCmdHset_found held).trans (Act.bind_ok rfl)) ran rfl
        (holds.add (wf.dbWf out.dbIdx) found _) rfl rfl
  | some item =>
      have found := holds.found held
      have there : (spaces out.dbIdx).values key ≠ none := by
        rw [found]
        exact Option.some_ne_none _
      cases item with
      | dict fields =>
          have fieldsWf := wf.fields false out.dbIdx key fields held
          have ran : Work.answer ⟨svr, out⟩ spaces (.hset key field value) = some
              ⟨.int 1, (spaces out.dbIdx).put key
                (FkItem.dict (fkDictAdd dbDictEop fields field value).2).value, 0⟩ := by
            unfold Work.answer Cmd.run
            dsimp only
            rw [found, value_hashAdd fieldsWf]
            rfl
          exact refines_call (.int 1) rfl ((fkCmdHset_found held).trans (Act.bind_ok rfl)) ran rfl
            (holds.put (wf.dbWf out.dbIdx) there _) rfl rfl
      | _ =>
          refine refines_say (.error fkRspTypeErr) (.error fkRspTypeErr) rfl holds
            (fkCmdHset_found held) ?_ rfl
          unfold Work.answer Cmd.run
          dsimp only
          rw [found]
          rfl

theorem fkCmdHget_refines {field : Bytes} (holds : Holds svr spaces) :
    Refines (fkCmdHget [name, key, field]) ⟨svr, out⟩ spaces (.hget key field) := by
  refine refines_reply (hgetReply field ((spaces out.dbIdx).values key)) rfl holds ?_ rfl
  rw [← holds.get]
  cases held : fkDictGet dbDictEop (svr.db out.dbIdx) key with
  | none =>
      refine ((getArg_bind rfl).trans ((getArg_bind rfl).trans (dbGet_bind held))).trans ?_
      exact (congrFun (sendAll_single (.bulk fkRspNil)) _).symm
  | some item =>
      refine ((getArg_bind rfl).trans ((getArg_bind rfl).trans (dbGet_bind held))).trans ?_
      cases item with
      | dict fields =>
          dsimp only [Option.map_some, FkItem.value, hgetReply]
          cases fkDictGet dbDictEop fields field with
          | none => exact (congrFun (sendAll_single (.bulk fkRspNil)) _).symm
          | some bytes => exact (congrFun (sendAll_bulk bytes) _).symm
      | _ => exact (congrFun (sendAll_single (.error fkRspTypeErr)) _).symm

/-- Without the key the handler crashes. -/
theorem fkCmdZadd_found {nodes : List Bytes} {found : Option FkItem} :
    fkDictGet dbDictEop (svr.db out.dbIdx) key = found →
      fkCmdZadd (name :: key :: nodes) ⟨svr, out⟩ = (match found with
      | none => Act.fault
      | some _ =>
          if nodes.length % 2 ≠ 0 then fkConnAddErrorRsp fkRspArgcErr
          else fkConnAddIntRsp (nodes.length / 2 : Nat) : Act Work Unit) ⟨svr, out⟩ := by
  have count : (name :: key :: nodes).length - 2 = nodes.length := by
    simp
  intro held
  unfold fkCmdZadd
  rw [count]
  exact (getArg_bind rfl).trans (dbGet_bind held)

theorem fkCmdZadd_refines {nodes : List Bytes} (holds : Holds svr spaces) :
    Refines (fkCmdZadd (name :: key :: nodes)) ⟨svr, out⟩ spaces (.zadd key nodes.length) := by
  cases held : fkDictGet dbDictEop (svr.db out.dbIdx) key with
  | none =>
      have ran : Work.answer ⟨svr, out⟩ spaces (.zadd key nodes.length) = none := by
        unfold Work.answer Cmd.run
        dsimp only
        rw [holds.found held]
        rfl
      unfold Refines
      rw [ran]
      exact fkCmdZadd_found held
  | some item =>
      have called := @fkCmdZadd_found _ out name _ nodes _ held
      have ran : Work.answer ⟨svr, out⟩ spaces (.zadd key nodes.length) = some
          ⟨if nodes.length % 2 ≠ 0 then
            .error fkRspArgcErr else .int (nodes.length / 2 : Nat), spaces out.dbIdx, 0⟩ := by
        unfold Work.answer Cmd.run
        dsimp only
        rw [holds.found held]
        rfl
      dsimp only at called
      by_cases odd : nodes.length % 2 ≠ 0
      · rw [if_pos odd] at called ran
        exact refines_say (.error fkRspArgcErr) (.error fkRspArgcErr) rfl holds called ran rfl
      · rw [if_neg odd] at called ran
        exact refines_say (.int (nodes.length / 2 : Nat)) (.int (nodes.length / 2 : Nat)) rfl holds
          called ran rfl

end Handlers

/-! ## The command table -/

section Table

variable {fkCmdEval : Handler} {pto : FkProto} {rest : List Bytes} {work : Work}
  {spaces : Nat → Keyspace}

/-- Every handler that is called with an admissible number of arguments refines the command
of its request. -/
theorem handler_refines (member : pto ∈ protos fkCmdEval) (notEval : pto.name ≠ ascii "EVAL")
    (counted : pto.accepts (rest.length + 1) = true) (wf : SvrWf work.svr)
    (holds : Holds work.svr spaces) :
    Refines (pto.handler (pto.name :: rest)) work spaces (Cmd.read pto.name rest) := by
  cases pto, member using protos_cases with
  | set =>
      obtain ⟨key, value, rfl⟩ := List.length_eq_two.mp (accepts_rest counted (by decide))
      exact fkCmdSet_refines wf holds
  | setnx =>
      obtain ⟨key, value, rfl⟩ := List.length_eq_two.mp (accepts_rest counted (by decide))
      exact fkCmdSetnx_refines wf holds
  | setex =>
      obtain ⟨key, exp, value, rfl⟩ := List.length_eq_three.mp (accepts_rest counted (by decide))
      exact fkCmdSetex_refines wf holds
  | mset =>
      have least := accepts_least counted (by decide)
      match rest, least with
      | first :: second :: more, _ =>
          by_cases odd : (first :: second :: more).length % 2 ≠ 0
          · have known : Cmd.read (ascii "MSET") (first :: second :: more) =
                .refused fkRspArgcErr := if_pos odd
            rw [known]
            exact fkCmdMset_odd holds odd
          · have known : Cmd.read (ascii "MSET") (first :: second :: more) = .mset
                (pairs (first :: second :: more)) :=
              if_neg odd
            rw [known]
            exact fkCmdMset_refines wf holds (Classical.not_not.mp odd)
  | mget =>
      cases rest with
      | nil => exact absurd (accepts_least counted (by decide)) (by decide)
      | cons key keys => exact fkCmdMget_refines wf holds
  | get =>
      obtain ⟨key, rfl⟩ := List.length_eq_one_iff.mp (accepts_rest counted (by decide))
      exact fkCmdGet_refines wf holds
  | del =>
      cases rest with
      | nil => exact absurd (accepts_least counted (by decide)) (by decide)
      | cons key keys => exact fkCmdDel_refines wf holds
  | flushdb =>
      obtain rfl := List.length_eq_zero_iff.mp (accepts_rest counted (by decide))
      exact fkCmdFlushdb_refines [] holds
  | existing =>
      obtain ⟨key, rfl⟩ := List.length_eq_one_iff.mp (accepts_rest counted (by decide))
      exact fkCmdExists_refines holds
  | flushall =>
      obtain rfl := List.length_eq_zero_iff.mp (accepts_rest counted (by decide))
      exact fkCmdFlushall_refines [] holds
  | hset =>
      obtain ⟨hkey, key, value, rfl⟩ := List.length_eq_three.mp (accepts_rest counted (by decide))
      exact fkCmdHset_refines wf holds
  | hget =>
      obtain ⟨hkey, key, rfl⟩ := List.length_eq_two.mp (accepts_rest counted (by decide))
      exact fkCmdHget_refines holds
  | lpush =>
      have least := accepts_least counted (by decide)
      match rest, least with
      | key :: node :: nodes, _ => exact fkCmdGenericPush_refines wf holds
  | rpush =>
      have least := accepts_least counted (by decide)
      match rest, least with
      | key :: node :: nodes, _ => exact fkCmdGenericPush_refines wf holds
  | lpop =>
      obtain ⟨key, rfl⟩ := List.length_eq_one_iff.mp (accepts_rest counted (by decide))
      exact fkCmdGenericPop_refines wf holds
  | rpop =>
      obtain ⟨key, rfl⟩ := List.length_eq_one_iff.mp (accepts_rest counted (by decide))
      exact fkCmdGenericPop_refines wf holds
  | llen =>
      obtain ⟨key, rfl⟩ := List.length_eq_one_iff.mp (accepts_rest counted (by decide))
      exact fkCmdLlen_refines holds
  | save =>
      obtain rfl := List.length_eq_zero_iff.mp (accepts_rest counted (by decide))
      exact fkCmdSave_refines [] holds
  | select =>
      obtain ⟨text, rfl⟩ := List.length_eq_one_iff.mp (accepts_rest counted (by decide))
      exact fkCmdSelect_refines holds
  | eval => exact (notEval rfl).elim
  | zadd =>
      have least := accepts_least counted (by decide)
      match rest, least with
      | key :: score :: member :: more, _ => exact fkCmdZadd_refines holds

end Table

end Freekick
