import Freekick.Lib.Steps
import Freekick.Refs.Handlers

/-!
# Runs that keep the balance

Every request and every event leaves a server in balance, with no reference outside of slots.
The only handler that a condition is on is `ZADD`, and only when casts are asked to be right.
-/

namespace Freekick.Refs

open Lib Lib.Call FkItems

variable {right : Prop} {svr : FkSvr} {client : Nat} {args : List Nat} {fkCmdEval : Handler}

theorem weight_eq {conn : FkConn} (found : svr.conns.find client = some conn) :
    (svr.conns.find client).elim [] FkConn.args = conn.args := by
  rw [found]
  rfl

/-! ## Dispatch -/

theorem accepts_natAbs {pto : FkProto} {count : Nat} (accepted : pto.accepts count = true) :
    pto.argCnt.natAbs ≤ count := by
  unfold FkProto.accepts at accepted
  simp only [Bool.and_eq_true, Bool.not_eq_true', Bool.and_eq_false_iff, decide_eq_false_iff_not,
    not_lt] at accepted
  omega

theorem handlerOf_serving {other : Freekick.Handler} {pto : FkProto} (member : pto ∈ protos other)
    (notEval : pto.name ≠ ascii "EVAL") (counted : pto.accepts args.length = true)
    (serves : Serves right client args svr [] ∅)
    (absent : right → pto.name = ascii "ZADD" → 4 ≤ args.length → KeyIsNew svr client args) :
    Serving right client args (handlerOf fkCmdEval pto.name client args) svr := by
  have enough := accepts_natAbs counted
  cases pto, member using protos_cases with
  | set => exact fkCmdSet_serving serves enough
  | setnx => exact fkCmdSetnx_serving serves enough
  | setex => exact fkCmdSetex_serving serves enough
  | mset => exact fkCmdMset_serving serves
  | mget => exact fkCmdMget_serving serves
  | get => exact fkCmdGet_serving serves enough
  | del => exact fkCmdDel_serving serves
  | flushdb => exact fkCmdFlushdb_serving serves
  | existing => exact fkCmdExists_serving serves enough
  | flushall => exact fkCmdFlushall_serving serves
  | hset => exact fkCmdHset_serving serves enough
  | hget => exact fkCmdHget_serving serves enough
  | lpush => exact fkCmdGenericPush_serving .head serves (Nat.le_of_succ_le enough)
  | rpush => exact fkCmdGenericPush_serving .tail serves (Nat.le_of_succ_le enough)
  | lpop => exact fkCmdGenericPop_serving .head serves enough
  | rpop => exact fkCmdGenericPop_serving .tail serves enough
  | llen => exact fkCmdLlen_serving serves enough
  | save => exact fkCmdSave_serving serves
  | select => exact fkCmdSelect_serving serves enough
  | eval => exact (notEval rfl).elim
  | zadd =>
      exact fkCmdZadd_serving serves (Nat.le_trans (by decide) enough) fun good =>
        absent good rfl enough

/-! ## Requests -/

theorem fkConnFreeArgs_ok (serves : Serves right client args svr [] ∅) :
    ∃ after, fkConnFreeArgs client svr = .ok () after ∧ Serves right client [] after [] ∅ := by
  obtain ⟨conn, found, rfl⟩ := serves.conn
  have looked : connOf client svr = .ok conn svr := by
    unfold connOf
    rw [found]
  have cleared : Ok right
      { svr with conns := svr.conns.put client { conn with args := [], argParsed := 0 } }
      (conn.args ++ []) ∅ := by
    refine serves.ok.withConn (weight_eq found) nofun (by rintro _ ⟨⟩)
      (serves.ok.dbIdx client conn found) fun id => ?_
    rw [List.append_nil]
    exact Nat.add_comm _ _
  obtain ⟨items, released, last, _⟩ := decRefs_ok cleared
  have called : fkConnFreeArgs client svr = _ :=
    (Act.bind_ok looked).trans ((Act.bind_ok rfl).trans (onItems_eq released))
  exact ⟨_, called, last, _, Function.update_self .., rfl⟩

theorem fkBlogAppend_reads {pto : FkProto} (serves : Serves right client args svr [] ∅) :
    Reads right [] ∅ (fkBlogAppend client pto args) svr () := by
  obtain ⟨conn, found, rfl⟩ := serves.conn
  have looked : connOf client svr = .ok conn svr := by
    unfold connOf
    rw [found]
  refine Reads.bind ⟨svr.casts, looked, serves.ok⟩ fun casts still => ?_
  refine Reads.bind ⟨casts, rfl, still⟩ fun casts still => ?_
  unfold Act.onlyIf
  by_cases logs : svr.blogOn = true ∧ pto.type ≠ .read ∧ conn.out.type = .real
  · obtain ⟨more, called, last⟩ := lookStrs_reads still (serves.ok.args client conn found)
    exact ⟨more, (if_pos logs).trans called, last⟩
  · exact ⟨casts, if_neg logs, still⟩

/-- A request that is complete. -/
theorem fkConnProcCmd_ends (serves : Serves right client args svr [] ∅) {first : Nat}
    (isFirst : args[0]? = some first)
    (absent : right → 4 ≤ args.length → fkStr2upper (svr.items.content.strOf first) = ascii "ZADD" →
      KeyIsNew svr client args) :
    Act.Ends (fkConnProcCmd fkCmdEval client) svr (fun _ after => Serves right client [] after [] ∅)
      fun after => ∃ left, Serves right client left after [] ∅ := by
  obtain ⟨conn, found, rfl⟩ := serves.conn
  have looked : connOf client svr = .ok conn svr := by
    unfold connOf
    rw [found]
  have isName : getArg conn.args 0 svr = .ok first svr := by
    unfold getArg
    rw [isFirst]
    rfl
  have member : first ∈ conn.args := List.mem_of_getElem? isFirst
  have notEval : fkStr2upper (svr.items.content.strOf first) ≠ ascii "EVAL" := by
    refine serves.ok.names client conn found first ?_
    rw [List.head?_eq_getElem?, isFirst]
    rfl
  obtain ⟨casts, named, still⟩ := rawStr_reads serves.ok (serves.arg member).1
  have begun : Serves right client conn.args { svr with casts := casts } [] ∅ :=
    ⟨still, serves.conn⟩
  refine Act.Ends.after looked (Act.Ends.after isName (Act.Ends.after named ?_))
  have refused : ∀ add, Act.Ends (fkConnFreeArgs client >>= fun _ => reply client add)
      { svr with casts := casts } (fun _ after => Serves right client [] after [] ∅) fun after =>
      ∃ left, Serves right client left after [] ∅ := by
    intro add
    obtain ⟨after, freed, empty⟩ := fkConnFreeArgs_ok begun
    exact Act.Ends.after freed
      ((reply_serving add empty).imp (fun _ _ served => served) fun _ served => ⟨[], served⟩)
  cases known : protoOf (fkStr2upper (svr.items.content.strOf first)) with
  | none => exact refused _
  | some pto =>
      obtain ⟨inTable, name⟩ := (fkProtoSearch_eq_some _).mp known
      dsimp only
      split
      · next counted =>
          rw [← name] at notEval
          have handled : Serving right client conn.args
              (handlerOf fkCmdEval pto.name client conn.args) { svr with casts := casts } :=
            handlerOf_serving inTable notEval counted begun fun good isZadd enough =>
              absent good enough (name.symm.trans isZadd)
          refine Act.Ends.bind (handled.imp (fun _ _ served => served) fun _ served => ⟨_, served⟩)
            fun _ middle served => ?_
          obtain ⟨more, logged, after⟩ := @fkBlogAppend_reads _ _ _ _ pto served
          obtain ⟨final, freed, last⟩ :=
            fkConnFreeArgs_ok (⟨after, served.conn⟩ : Serves right client conn.args _ [] ∅)
          exact Act.Ends.after logged (Act.Ends.of_ok freed last)
      · exact refused _

/-! ## Events -/

theorem fkSvrRemoveConn_ok (serves : Serves right client args svr [] ∅) :
    ∃ after, fkSvrRemoveConn client svr = .ok () after ∧ Ok right after [] ∅ := by
  obtain ⟨after, freed, last⟩ := fkConnFreeArgs_ok serves
  obtain ⟨conn, found, empty⟩ := last.conn
  refine ⟨_, (Act.bind_ok freed).trans rfl, last.ok.dropConn ?_⟩
  rw [found]
  exact empty

theorem runCmd_ok (serves : Serves right client args svr [] ∅) {first : Nat}
    (isFirst : args[0]? = some first)
    (absent : right → 4 ≤ args.length → fkStr2upper (svr.items.content.strOf first) = ascii "ZADD" →
      KeyIsNew svr client args) :
    ∃ after, runCmd fkCmdEval client svr = .ok () after ∧ Ok right after [] ∅ := by
  have ends := @fkConnProcCmd_ends _ _ _ _ fkCmdEval serves first isFirst absent
  unfold Act.Ends at ends
  unfold runCmd
  cases called : fkConnProcCmd fkCmdEval client svr with
  | ok value after =>
      rw [called] at ends
      exact ⟨after, rfl, ends.ok⟩
  | err after =>
      rw [called] at ends
      obtain ⟨left, served⟩ := ends
      dsimp only
      split
      · exact ⟨after, rfl, served.ok⟩
      · exact fkSvrRemoveConn_ok served
  | fault =>
      rw [called] at ends
      exact ends.elim

/-- The event completes a request `ZADD` on a key that is there. -/
def ZaddOnKey (svr : FkSvr) : Event → Prop
  | .arg client _ => ∃ conn ∈ svr.conns.find client, ∃ name ∈ conn.args[0]?, ∃ key ∈ conn.args[1]?,
      ∃ dct ∈ svr.dicts.find (false, conn.out.dbIdx), fkStr2upper (svr.items.content.strOf name) =
        ascii "ZADD" ∧ conn.args.length + 1 = conn.argParsed ∧ 4 ≤ conn.argParsed ∧
        fkDictGet svr.items.content.eop dct key ≠ none
  | _ => False

instance decidableZaddOnKey (svr : FkSvr) : ∀ event, Decidable (ZaddOnKey svr event)
  | .arg client _ =>
      inferInstanceAs (Decidable (∃ conn ∈ svr.conns.find client, ∃ name ∈ conn.args[0]?,
        ∃ key ∈ conn.args[1]?,
      ∃ dct ∈ svr.dicts.find (false, conn.out.dbIdx), fkStr2upper (svr.items.content.strOf name) =
      ascii "ZADD" ∧
        conn.args.length + 1 = conn.argParsed ∧ 4 ≤ conn.argParsed ∧
        fkDictGet svr.items.content.eop dct key ≠ none))
  | .connect _ | .header _ _ | .name _ _ | .sent _ _ | .close _ | .sample _ _ | .dump => isFalse id

/-- The condition on the state before the last argument is stored holds afterwards. -/
theorem keyIsNew_stored {conn : FkConn} {bytes : Bytes} {item : Nat} {items : FkItems}
    {value : FkItemType × Entity} (ok : Ok right svr [] ∅)
    (found : svr.conns.find client = some conn) (unused : svr.items.content item = none)
    (content : items.content = Function.update svr.items.content item (some value))
    (complete : conn.args.length + 1 = conn.argParsed) (enough : 4 ≤ (conn.args ++ [item]).length)
    {first : Nat} (isFirst : (conn.args ++ [item])[0]? = some first)
    (isZadd : fkStr2upper (items.content.strOf first) = ascii "ZADD")
    (absent : ¬ ZaddOnKey svr (.arg client bytes)) :
    KeyIsNew
      { svr with
        items := items
        conns := svr.conns.put client { conn with args := conn.args ++ [item] } }
      client (conn.args ++ [item]) := by
  rw [List.length_append, List.length_singleton] at enough
  have strs := ok.args client conn found
  have before : ∀ index, index < 2 → (conn.args ++ [item])[index]? = conn.args[index]? :=
    fun index small =>
      List.getElem?_append_left (by omega)
  intro stored key dct isStored isKey there
  rw [Objects.find_put, Function.update_self] at isStored
  cases isStored
  change (conn.args ++ [item])[1]? = some key at isKey
  change svr.dicts.find (false, conn.out.dbIdx) = some dct at there
  rw [before 0 (by decide)] at isFirst
  rw [before 1 (by decide)] at isKey
  obtain ⟨wf, keys, _⟩ := ok.dicts _ dct there
  have unchanged : items.content.strOf first = svr.items.content.strOf first := by
    have apart : first ≠ item := by
      rintro rfl
      obtain ⟨bytes, isStr⟩ := strs first (List.mem_of_getElem? isFirst)
      rw [unused] at isStr
      cases isStr
    rw [content, Content.strOf, Content.strOf, Function.update_of_ne apart]
  rw [unchanged] at isZadd
  have new : fkDictGet svr.items.content.eop dct key = none := by
    by_contra present
    exact absent ⟨conn, found, first, isFirst, key, isKey, dct, there, isZadd, complete,
      by omega, present⟩
  change fkDictGet items.content.eop dct key = none
  rw [content]
  exact fkDictGet_newItem value wf keys (strs key (List.mem_of_getElem? isKey)) unused new

/-- An argument is stored, and the last one of a request runs it. -/
theorem parseArg_ok {conn : FkConn} {bytes : Bytes} (ok : Ok right svr [] ∅)
    (found : svr.conns.find client = some conn)
    (named : conn.args = [] → fkStr2upper bytes ≠ ascii "EVAL")
    (absent : right → ¬ ZaddOnKey svr (.arg client bytes)) :
    ∃ after, parseArg fkCmdEval client bytes svr = .ok () after ∧ Ok right after [] ∅ := by
  have empty : svr.items.content.Typed (.str bytes) := ⟨nofun, nofun⟩
  obtain ⟨item, made, created, unused, fresh, content⟩ := create_ok (.str bytes) ok empty
  have isStr : made.content.IsStr item := ⟨bytes, by rw [content, Function.update_self]; rfl⟩
  obtain ⟨items, taken, held, same⟩ := incRef_ok fresh isStr.live
  rw [insert_empty_eq, Set.sdiff_self] at held
  change items.content = made.content at same
  have strs : ∀ arg ∈ conn.args ++ [item], items.content.IsStr arg := by
    intro arg member
    rcases List.mem_append.mp member with old | new
    · exact held.args client conn found arg old
    · rw [List.mem_singleton.mp new, same]
      exact isStr
  have notEval : items.content.NotEval (conn.args ++ [item]) := by
    intro first isFirst
    cases args : conn.args with
    | nil =>
        rw [args] at isFirst
        cases isFirst
        rw [Content.strOf, same, content, Function.update_self]
        exact named args
    | cons name rest =>
        refine held.names client conn found first ?_
        rw [args] at isFirst ⊢
        exact isFirst
  have stored : Serves right client (conn.args ++ [item])
      { svr with
        items := items
        conns := svr.conns.put client { conn with args := conn.args ++ [item] } } [] ∅ := by
    refine ⟨held.withConn (weight_eq found) strs notEval (held.dbIdx client conn found) fun id =>
      ?_, _, Function.update_self .., rfl⟩
    exact List.count_append
  have looked : connOf client { svr with items := made } = .ok conn { svr with items := made } := by
    unfold connOf
    rw [found]
  have begun : parseArg fkCmdEval client bytes svr =
      Act.onlyIf (conn.args.length + 1 = conn.argParsed) (runCmd fkCmdEval client)
        { svr with
          items := items
          conns := svr.conns.put client { conn with args := conn.args ++ [item] } } :=
    (Act.bind_ok (onItems_eq created)).trans
      ((Act.bind_ok looked).trans ((Act.bind_ok (onItems_eq taken)).trans (Act.bind_ok rfl)))
  rw [begun]
  unfold Act.onlyIf
  split
  · next complete =>
      have inside : 0 < (conn.args ++ [item]).length := by
        rw [List.length_append]
        exact Nat.succ_pos _
      refine runCmd_ok stored (List.getElem?_eq_getElem inside) fun good enough isZadd => ?_
      exact keyIsNew_stored ok found unused (same.trans content) complete enough
        (List.getElem?_eq_getElem inside) isZadd (absent good)
  · exact ⟨_, rfl, stored.ok⟩

theorem sampleOne_ok {idx number : Nat} {dct : FkDict Nat Nat} (ok : Ok right svr [] ∅)
    (below : idx < svr.dbcnt) (found : svr.dicts.find (true, idx) = some dct) :
    ∃ after, sampleOne idx number dct svr = .ok () after ∧ Ok right after [] ∅ := by
  obtain ⟨wf, keys, _⟩ := ok.dicts _ dct found
  unfold sampleOne
  cases picked : fkDictRandom dct number with
  | none =>
      exact ⟨_, rfl, ok.exact, ok.dicts, ok.there, ok.positive, ok.args, ok.names,
        ok.dbIdx, ok.casts⟩
  | some elt =>
      have member := fkDictRandom_mem wf picked
      obtain ⟨expired, after, called, _, last⟩ :=
        fkHandleExpiredKey_ok ok below (keys elt member) fun after ok _ same => by
          exact (ok.dicts _ dct (same.trans found)).keys elt member
      exact ⟨after, (Act.bind_ok called).trans rfl, last⟩

/-- Another state of a connection with the same arguments. -/
theorem setConn_ok {conn changed : FkConn} (ok : Ok right svr [] ∅)
    (found : svr.conns.find client = some conn) (args : changed.args = conn.args)
    (dbIdx : changed.out.dbIdx = conn.out.dbIdx) :
    ∃ after, setConn client changed svr = .ok () after ∧ Ok right after [] ∅ := by
  refine ⟨_, rfl, ok.withConn (weight_eq found) ?_ ?_ ?_ fun _ => by rw [args]⟩
  · rw [args]
    exact ok.args client conn found
  · rw [args]
    exact ok.names client conn found
  · rw [dbIdx]
    exact ok.dbIdx client conn found

/-- A request of the script interpreter does not begin. -/
def Event.NotEval : Event → Prop
  | .name _ bytes => fkStr2upper bytes ≠ ascii "EVAL"
  | _ => True

theorem Event.act_ok {maxWbuf : Nat} (event : Event) (ok : Ok right svr [] ∅)
    (notEval : event.NotEval) (absent : right → ¬ ZaddOnKey svr event) :
    ∃ after, event.act fkCmdEval maxWbuf svr = .ok () after ∧ Ok right after [] ∅ := by
  have idle : ∃ after, (pure () : Act FkSvr Unit) svr = .ok () after ∧ Ok right after [] ∅ :=
    ⟨svr, rfl, ok⟩
  have atConn_ok : ∀ {client : Nat} {absent : Act FkSvr Unit} {present : FkConn → Act FkSvr Unit},
      (svr.conns.find client = none → ∃ after, absent svr = .ok () after ∧ Ok right after [] ∅) →
      (∀ conn, svr.conns.find client = some conn → ∃ after, present conn svr = .ok () after ∧
        Ok right after [] ∅) →
      ∃ after, atConn client absent present svr = .ok () after ∧ Ok right after [] ∅ := by
    intro client absent present missing there
    unfold atConn
    cases found : svr.conns.find client with
    | none => exact missing found
    | some conn => exact there conn found
  have onlyIf_ok : ∀ {condition : Prop} [Decidable condition] {act : Act FkSvr Unit},
      (condition → ∃ after, act svr = .ok () after ∧ Ok right after [] ∅) →
      ∃ after, Act.onlyIf condition act svr = .ok () after ∧ Ok right after [] ∅ := by
    intro condition _ act holds
    unfold Act.onlyIf
    split
    · next is => exact holds is
    · exact idle
  cases event with
  | connect client =>
      refine atConn_ok (fun missing => ⟨_, rfl, ?_⟩) fun _ _ => idle
      have none : (svr.conns.find client).elim [] FkConn.args = [] := by
        rw [missing]
        rfl
      exact ok.withConn none nofun (by rintro _ ⟨⟩) ok.positive fun _ => rfl
  | header client argParsed =>
      exact atConn_ok (fun _ => idle) fun conn found => onlyIf_ok fun _ =>
        setConn_ok ok found rfl rfl
  | name client bytes =>
      refine atConn_ok (fun _ => idle) fun conn found => onlyIf_ok fun begun => parseArg_ok ok found
        (fun _ => notEval) fun _ => ?_
      rintro ⟨other, there, first, isFirst, _⟩
      obtain rfl := Option.some.inj (found.symm.trans there)
      rw [begun.2] at isFirst
      cases isFirst
  | arg client bytes =>
      refine atConn_ok (fun _ => idle) fun conn found => onlyIf_ok fun begun => ?_
      exact parseArg_ok ok found (fun none => (begun.2 none).elim) absent
  | sent client count =>
      exact atConn_ok (fun _ => idle) fun conn found => setConn_ok ok found rfl rfl
  | close client =>
      exact atConn_ok (fun _ => idle) fun conn found => fkSvrRemoveConn_ok ⟨ok, conn, found, rfl⟩
  | sample idx number =>
      refine onlyIf_ok fun below => ?_
      obtain ⟨dct, found⟩ := ok.there true idx below
      obtain ⟨after, called, last⟩ := @sampleOne_ok _ _ _ number _ ok below found
      exact ⟨after, (Act.bind_ok (dictAt_eq found)).trans called, last⟩
  | dump =>
      obtain ⟨casts, called, still⟩ := fkKdbSave_reads ok
      exact ⟨_, called, still⟩

theorem step_ok {maxWbuf : Nat} {event : Event} (ok : Ok right svr [] ∅) (notEval : event.NotEval)
    (absent : right → svr.crashed = false → ¬ ZaddOnKey svr event) :
    ∃ after, step fkCmdEval maxWbuf svr event = some after ∧ Ok right after [] ∅ := by
  unfold step
  split
  · exact ⟨svr, rfl, ok⟩
  · next running =>
      obtain ⟨after, called, last⟩ :=
        @Event.act_ok _ _ fkCmdEval maxWbuf event ok notEval fun good =>
          absent good (Bool.eq_false_iff.mpr running)
      exact ⟨after, by rw [called], last⟩

/-! ## The first state -/

theorem initDicts (idxs : List Nat) (dicts : Objects (Bool × Nat) (FkDict Nat Nat)) :
    let made := idxs.foldl (fun dicts idx => (dicts.put (false, idx) fkDictCreate).put
      (true, idx) fkDictCreate) dicts
    (∀ place, made.find place = some fkDictCreate ∨ made.find place = dicts.find place) ∧
      ∀ isexp, ∀ idx ∈ idxs, made.find (isexp, idx) = some fkDictCreate := by
  induction idxs generalizing dicts with
  | nil => exact ⟨fun _ => .inr rfl, fun _ _ member => nomatch member⟩
  | cons idx rest ih =>
      obtain ⟨either, stored⟩ :=
        ih ((dicts.put (false, idx) fkDictCreate).put (true, idx) fkDictCreate)
      have first : ∀ isexp, ((dicts.put (false, idx) fkDictCreate).put
          (true, idx) fkDictCreate).find (isexp, idx) = some fkDictCreate := by
        intro isexp
        have apart : (false, idx) ≠ (true, idx) := by rintro ⟨⟩
        rw [Objects.find_put]
        cases isexp with
        | true => exact Function.update_self ..
        | false => rw [Function.update_of_ne apart, Objects.find_put, Function.update_self]
      refine ⟨fun place => ?_, fun isexp other member => ?_⟩
      · rcases either place with new | old
        · exact .inl new
        · rcases Decidable.em (place.2 = idx) with rfl | apart
          · exact .inl (old.trans (first place.1))
          · refine .inr (old.trans ?_)
            have one : place ≠ (true, idx) := fun same => apart (congrArg Prod.snd same)
            have two : place ≠ (false, idx) := fun same => apart (congrArg Prod.snd same)
            rw [Objects.find_put, Function.update_of_ne one, Objects.find_put,
              Function.update_of_ne two]
      · rcases List.mem_cons.mp member with rfl | later
        · rcases either (isexp, other) with new | old
          · exact new
          · exact old.trans (first isexp)
        · exact stored isexp other later

theorem fkSvrInit_ok {dbcnt : Nat} (positive : 0 < dbcnt) (blogOn : Bool) (clock : Nat → Int)
    (junk : Nat → UInt8) :
    Ok right (fkSvrInit dbcnt blogOn clock junk) [] ∅ := by
  obtain ⟨either, stored⟩ := initDicts (List.range dbcnt) .empty
  have empty : ∀ place dct, (fkSvrInit dbcnt blogOn clock junk).dicts.find place = some dct →
      dct = fkDictCreate := by
    intro place dct found
    rcases either place with new | old
    · exact (Option.some.inj (new.symm.trans found)).symm
    · cases old.symm.trans found
  have outer : (fkSvrInit dbcnt blogOn clock junk).outer = fun _ => 0 := by
    funext id
    refine Nat.add_eq_zero_iff.mpr ⟨Finset.sum_eq_zero fun place _ => ?_, rfl⟩
    unfold Objects.weightAt
    cases found : (fkSvrInit dbcnt blogOn clock junk).dicts.find place with
    | none => rfl
    | some dct =>
        rw [empty place dct found]
        rfl
  refine ⟨?_, fun place dct found => ?_, fun isexp idx below =>
    ⟨_, stored isexp idx (List.mem_range.mpr below)⟩, positive,
    (fun _ _ found => nomatch found), (fun _ _ found => nomatch found),
    (fun _ _ found => nomatch found), (fun _ _ member => nomatch member)⟩
  · rw [outer]
    exact ⟨fun _ => rfl, (fun _ live => nomatch live), (fun _ isFresh => nomatch isFresh),
      (fun _ _ _ found => nomatch found), (fun _ isFree => nomatch isFree), List.nodup_nil⟩
  · rw [empty place dct found]
    have none : (fkDictCreate : FkDict Nat Nat).elements = [] := fkDictInit_elements
    refine ⟨fkDictInit_wf, fun elt member => ?_, fun elt member => ?_⟩
    · rw [none] at member
      cases member
    · rw [none] at member
      cases member

/-! ## Exact counts in every run -/

/-- The count of every item in use is the number of slots that hold it, and no slot holds anything
else. -/
structure RefsExact (svr : FkSvr) : Prop where
  used : ∀ id item, svr.items.used.find id = some item → item.ref = svr.slots id ∧ 1 ≤ svr.slots id
  unused : ∀ id, svr.items.used.find id = none → svr.slots id = 0
  free : ∀ id ∈ svr.items.free, svr.items.used.find id = none

theorem Ok.refsExact (ok : Ok right svr [] ∅) : RefsExact svr := by
  have counted : ∀ id, svr.items.refOf id = svr.slots id := fun id => ok.exact.refs id
  refine ⟨fun id item found => ?_, fun id none => ?_, fun id isFree => Option.map_eq_none_iff.mp
    (ok.exact.free id isFree)⟩
  · have referenced := ok.exact.zero id (by rw [content_eq found]; rfl)
    rw [counted] at referenced
    refine ⟨?_, Nat.pos_of_ne_zero fun zero => referenced.mp zero⟩
    rw [← counted, refOf_eq found]
  · rw [← counted, refOf, Objects.weightAt, none]
    rfl

/-- Between two events the counts are exact, whatever the clients do, whenever they go, and
whatever expires. -/
theorem run_refsExact (fkCmdEval : Handler) (maxWbuf dbcnt : Nat) (blogOn : Bool)
    (clock : Nat → Int) (junk : Nat → UInt8) (positive : 0 < dbcnt) (events : List Event)
    (notEval : ∀ event ∈ events, event.NotEval) :
    ∃ final, Steps.run (step fkCmdEval maxWbuf) (fkSvrInit dbcnt blogOn clock junk) events =
      some final ∧ RefsExact final := by
  have steps : ∀ svr event, Ok False svr [] ∅ → event.NotEval →
      ∃ next, step fkCmdEval maxWbuf svr event = some next ∧ Ok False next [] ∅ :=
    fun _ _ ok good => step_ok ok good nofun
  obtain ⟨final, reached, ok⟩ :=
    Steps.run_succeeds steps (fkSvrInit_ok positive blogOn clock junk) notEval
  exact ⟨final, reached, ok.refsExact⟩

theorem run_refsExact_set :
    ∃ final, Steps.run (step (fun _ _ => Act.fault) 1024) (fkSvrInit 1 true (fun _ => 0) fun _ => 0)
      [.connect 4, .header 4 3, .name 4 (ascii "set"), .arg 4 (ascii "k"), .arg 4 (ascii "v")] =
        some final ∧ RefsExact final := by
  have named : fkStr2upper (ascii "set") ≠ ascii "EVAL" := by decide
  refine run_refsExact _ _ 1 _ _ _ Nat.one_pos _ fun event member => ?_
  rcases List.mem_cons.mp member with rfl | member
  · trivial
  rcases List.mem_cons.mp member with rfl | member
  · trivial
  rcases List.mem_cons.mp member with rfl | member
  · exact named
  rcases List.mem_cons.mp member with rfl | member
  · trivial
  rw [List.mem_singleton.mp member]
  trivial

end Freekick.Refs
