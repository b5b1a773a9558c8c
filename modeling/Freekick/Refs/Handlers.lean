import Freekick.Refs.Serve

/-!
# Handlers that keep the balance

One lemma for each handler, with as many arguments as the command table asks for.
-/

namespace Freekick.Refs

open Lib Lib.Call FkItems

variable {right : Prop} {svr : FkSvr} {extra : List Nat} {fresh : Set Nat} {client id key : Nat}
  {args : List Nat} {place : Bool × Nat} {dct : FkDict Nat Nat}

/-! ## `fk_svr_db.c` -/

theorem delLoop_ok {idx : Nat} (keys : List Nat) (deleted : Nat)
    (serves : Serves right client args svr [] ∅) (below : idx < svr.dbcnt)
    (inside : ∀ key ∈ keys, key ∈ args) :
    ∃ count after, delLoop (false, idx) keys deleted svr = .ok count after ∧
      Serves right client args after [] ∅ := by
  induction keys generalizing svr deleted with
  | nil => exact ⟨deleted, svr, rfl, serves⟩
  | cons key rest ih =>
      obtain ⟨dct, found⟩ := serves.ok.there false idx below
      obtain ⟨is, _, _⟩ := serves.arg (inside key (List.mem_cons_self ..))
      obtain ⟨removed, middle, called, left, ok, _⟩ := dbRemove_ok serves.ok found is
      have still : idx < middle.dbcnt := by
        rw [left.dbcnt]
        exact below
      obtain ⟨count, after, more, last⟩ :=
        ih (if removed then deleted + 1 else deleted) (serves.of_rest left ok) still
          fun other member => inside other (List.mem_cons_of_mem _ member)
      exact ⟨count, after, (Act.bind_ok called).trans more, last⟩

theorem fkCmdDel_serving (serves : Serves right client args svr [] ∅) :
    Serving right client args (fkCmdDel client args) svr := by
  obtain ⟨idx, db, below⟩ := serves.db
  obtain ⟨count, after, called, last⟩ :=
    delLoop_ok (args.drop 1) 0 serves below fun _ => List.mem_of_mem_drop
  exact Serving.after db (Serving.after called (reply_serving _ last))

theorem emptyBoth_ok {idx : Nat} (ok : Ok right svr extra fresh) (below : idx < svr.dbcnt) :
    ∃ after, emptyBoth idx svr = .ok () after ∧ Rest svr after ∧ Ok right after extra fresh := by
  obtain ⟨values, found⟩ := ok.there false idx below
  obtain ⟨middle, first, rest, between, apart⟩ := dbEmpty_ok ok found
  obtain ⟨deadlines, there⟩ := ok.there true idx below
  rw [← apart (true, idx) (by rintro ⟨⟩)] at there
  obtain ⟨after, second, further, last, _⟩ := dbEmpty_ok between there
  exact ⟨after, (Act.bind_ok first).trans second, rest.trans further, last⟩

theorem fkCmdFlushdb_serving (serves : Serves right client args svr [] ∅) :
    Serving right client args (fkCmdFlushdb client args) svr := by
  obtain ⟨idx, db, below⟩ := serves.db
  obtain ⟨after, called, rest, last⟩ := emptyBoth_ok serves.ok below
  exact Serving.after db (Serving.after called (reply_serving _ (serves.of_rest rest last)))

theorem emptyAll_ok (idxs : List Nat) (ok : Ok right svr extra fresh)
    (below : ∀ idx ∈ idxs, idx < svr.dbcnt) :
    ∃ after, Act.forEach emptyBoth idxs svr = .ok () after ∧ Rest svr after ∧
      Ok right after extra fresh := by
  induction idxs generalizing svr with
  | nil => exact ⟨svr, rfl, ⟨rfl, rfl, .of_eq rfl⟩, ok⟩
  | cons idx others ih =>
      obtain ⟨middle, called, rest, between⟩ := emptyBoth_ok ok (below idx (List.mem_cons_self ..))
      obtain ⟨after, more, further, last⟩ := ih between fun other member => by
        rw [rest.dbcnt]
        exact below other (List.mem_cons_of_mem _ member)
      exact ⟨after, (Act.bind_ok called).trans more, rest.trans further, last⟩

theorem fkCmdFlushall_serving (serves : Serves right client args svr [] ∅) :
    Serving right client args (fkCmdFlushall client args) svr := by
  obtain ⟨after, called, rest, last⟩ :=
    emptyAll_ok (List.range svr.dbcnt) serves.ok fun _ => List.mem_range.mp
  exact Serving.after rfl (Serving.after called (reply_serving _ (serves.of_rest rest last)))

/-- The value of a key in the selected database. -/
theorem Serving.lookUp {key : Nat} {next : Bool × Nat → Option Nat → Act FkSvr Unit}
    (serves : Serves right client args svr [] ∅) (isStr : svr.items.content.IsStr key)
    (later : ∀ idx dct casts, dbOf client svr = .ok (false, idx) svr →
      svr.dicts.find (false, idx) = some dct →
      Serves right client args { svr with casts := casts } [] ∅ →
        Serving right client args (next (false, idx) (fkDictGet svr.items.content.eop dct key))
          { svr with casts := casts }) :
    Serving right client args (dbOf client >>= fun db => dbGet db key >>= next db) svr := by
  obtain ⟨idx, db, below⟩ := serves.db
  obtain ⟨dct, found⟩ := serves.ok.there false idx below
  refine Serving.after db ?_
  exact Serving.look serves (dbGet_reads serves.ok found isStr) fun casts still =>
    later idx dct casts db found still

theorem fkCmdExists_serving (serves : Serves right client args svr [] ∅)
    (enough : 1 < args.length) :
    Serving right client args (fkCmdExists client args) svr := by
  obtain ⟨key, isKey, member, _⟩ := getArg_ok enough
  refine Serving.after (isKey svr) ?_
  exact Serving.lookUp serves (serves.arg member).1 fun _ _ _ _ _ still => reply_serving _ still

theorem content_of_live {content : Content} (live : (content id).isSome = true) :
    ∃ type entity, content id = some (type, entity) := by
  cases there : content id with
  | none =>
      rw [there] at live
      cases live
  | some both => exact ⟨both.1, both.2, rfl⟩

theorem dumpElt_reads {isexp : Bool} {elt : Nat × Nat} (ok : Ok right svr extra fresh)
    (is : svr.items.content.IsStr elt.1) (belongs : svr.items.content.Belongs isexp elt.2) :
    Reads right extra fresh (dumpElt elt) svr () := by
  obtain ⟨type, entity, there⟩ := content_of_live belongs.live
  obtain ⟨sameType, typed⟩ := ok.exact.typed elt.2 type entity there
  obtain ⟨item, looked, itsType, itsEntity⟩ := itemAt_eq there
  refine Reads.bind ⟨svr.casts, looked, ok⟩ fun casts still => ?_
  rw [itsType, sameType]
  rw [sameType] at there
  cases entity with
  | str bytes =>
      exact (lookStr_reads still is).bind fun _ still => lookStr_reads still ⟨bytes, there⟩
  | list nodes =>
      refine (lookStr_reads still is).bind fun _ still =>
        (rawList_reads still there).bind fun _ still => ?_
      exact lookStrs_reads still typed.slots
  | dict fields =>
      refine (lookStr_reads still is).bind fun _ still =>
        (rawDict_reads still there).bind fun _ still => ?_
      refine forEach_reads still fun selt member _ still => ?_
      rw [fkDictVisits_eq (typed.fields fields rfl)] at member
      have slots : selt.1 ∈ dictSlots fields ∧ selt.2 ∈ dictSlots fields :=
        ⟨List.mem_flatMap.mpr ⟨selt, member, List.mem_cons_self ..⟩,
          List.mem_flatMap.mpr ⟨selt, member, List.mem_cons_of_mem _ (List.mem_cons_self ..)⟩⟩
      exact (lookStr_reads still (typed.slots _ slots.1)).bind fun _ still => lookStr_reads still
        (typed.slots _ slots.2)
  | sklist => exact .pure still ()
  | num number =>
      exact (lookStr_reads still is).bind fun _ still =>
        (rawNum_reads still there).bind fun _ still => .pure still ()

theorem fkKdbDump_reads (ok : Ok right svr extra fresh) (found : svr.dicts.find place = some dct) :
    Reads right extra fresh (fkKdbDump place) svr () := by
  obtain ⟨wf, keys, values⟩ := ok.dicts place dct found
  refine Reads.bind ⟨svr.casts, dictAt_eq found, ok⟩ fun casts still =>
    forEach_reads still fun elt member casts still => ?_
  rw [fkDictVisits_eq wf] at member
  exact dumpElt_reads still (keys elt member) (values elt member)

theorem fkKdbSave_reads (ok : Ok right svr extra fresh) :
    Reads right extra fresh fkKdbSave svr () := by
  refine Reads.bind ⟨svr.casts, rfl, ok⟩ fun casts still =>
    forEach_reads still fun idx member casts still => ?_
  obtain ⟨values, found⟩ := ok.there false idx (List.mem_range.mp member)
  obtain ⟨deadlines, there⟩ := ok.there true idx (List.mem_range.mp member)
  exact (fkKdbDump_reads still found).bind fun _ still => fkKdbDump_reads still there

theorem fkCmdSave_serving (serves : Serves right client args svr [] ∅) :
    Serving right client args (fkCmdSave client args) svr := by
  refine Serving.after rfl ?_
  have saved : Reads right [] ∅ (Act.onlyIf (svr.savePid = -1) fkKdbSave) svr () := by
    by_cases idle : svr.savePid = -1
    · obtain ⟨casts, called, still⟩ := fkKdbSave_reads serves.ok
      exact ⟨casts, (if_pos idle).trans called, still⟩
    · exact ⟨svr.casts, if_neg idle, serves.ok⟩
  exact Serving.look serves saved fun casts still => reply_serving _ still

theorem fkCmdSelect_serving (serves : Serves right client args svr [] ∅)
    (enough : 1 < args.length) :
    Serving right client args (fkCmdSelect client args) svr := by
  obtain ⟨arg, isArg, member, _⟩ := getArg_ok enough
  refine Serving.after (isArg svr)
    (Serving.look serves (rawStr_reads serves.ok (serves.arg member).1) fun casts still => ?_)
  refine Serving.after rfl ?_
  dsimp only
  split
  · exact reply_serving _ still
  · next inside =>
      obtain ⟨conn, found, rfl⟩ := still.conn
      have looked : connOf client { svr with casts := casts } = .ok conn
          { svr with casts := casts } := by
        unfold connOf
        rw [found]
      refine Serving.after looked
        (Serving.after rfl (reply_serving _ ⟨?_, _, Function.update_self .., rfl⟩))
      refine still.ok.withConn (by rw [found]; rfl) (still.ok.args client conn found)
        (still.ok.names client conn found) ?_ fun _ => rfl
      change (atoi (svr.items.content.strOf arg)).toNat < svr.dbcnt
      omega

/-! ## `fk_svr_str.c` -/

/-- A key of the request gets an argument or a fresh item. -/
theorem Serves.replace {idx value : Nat} (serves : Serves right client args svr extra fresh)
    (isexp : Bool) (below : idx < svr.dbcnt) (member : key ∈ args)
    (belongs : svr.items.content.Belongs isexp value) (held : Held svr fresh value) :
    ∃ after, dbReplace (isexp, idx) key value svr = .ok () after ∧ Rest svr after ∧
      Serves right client args after extra (fresh \ {value}) := by
  obtain ⟨dct, found⟩ := serves.ok.there isexp idx below
  obtain ⟨is, _, notFresh⟩ := serves.arg member
  obtain ⟨after, called, rest, ok⟩ := dbReplace_ok serves.ok found is belongs held notFresh
  exact ⟨after, called, rest, serves.of_rest rest ok⟩

/-- Both are arguments. -/
theorem Serves.set {idx value : Nat} (serves : Serves right client args svr extra fresh)
    (below : idx < svr.dbcnt) (member : key ∈ args) (inside : value ∈ args) :
    ∃ after, dbReplace (false, idx) key value svr = .ok () after ∧ Rest svr after ∧
      Serves right client args after extra fresh := by
  obtain ⟨is, held, notFresh⟩ := serves.arg inside
  obtain ⟨after, called, rest, last⟩ := serves.replace false below member is.isValue held
  rw [Set.sdiff_singleton_eq_self notFresh] at last
  exact ⟨after, called, rest, last⟩

theorem fkCmdSet_serving (serves : Serves right client args svr [] ∅) (enough : 2 < args.length) :
    Serving right client args (fkCmdSet client args) svr := by
  obtain ⟨key, isKey, member, _⟩ := getArg_ok (Nat.lt_of_succ_lt enough)
  obtain ⟨value, isValue, inside, _⟩ := getArg_ok enough
  obtain ⟨idx, db, below⟩ := serves.db
  obtain ⟨after, called, _, last⟩ := serves.set below member inside
  exact Serving.after (isKey svr)
    (Serving.after (isValue svr) (Serving.after db (Serving.after called (reply_serving _ last))))

theorem fkCmdSetnx_serving (serves : Serves right client args svr [] ∅) (enough : 2 < args.length) :
    Serving right client args (fkCmdSetnx client args) svr := by
  obtain ⟨key, isKey, member, _⟩ := getArg_ok (Nat.lt_of_succ_lt enough)
  obtain ⟨value, isValue, inside, _⟩ := getArg_ok enough
  obtain ⟨idx, db, below⟩ := serves.db
  obtain ⟨dct, found⟩ := serves.ok.there false idx below
  obtain ⟨is, _, notFresh⟩ := serves.arg member
  refine Serving.after (isKey svr) (Serving.after db ?_)
  refine Serving.look serves (dbGet_reads serves.ok found is) fun casts still => ?_
  split
  · exact reply_serving _ still
  · next absent =>
      have none : fkDictGet svr.items.content.eop dct key = .none :=
        Option.not_isSome_iff_eq_none.mp absent
      obtain ⟨after, called, rest, ok⟩ :=
        dbAdd_absent still.ok found is (serves.arg inside).1.isValue none
      rw [Set.empty_sdiff, Set.empty_sdiff] at ok
      exact Serving.after (isValue _)
        (Serving.after called (reply_serving _ (still.of_rest rest ok)))

theorem nowMillis_eq (svr : FkSvr) : nowMillis svr = .ok (svr.clock svr.readings)
    { svr with readings := svr.readings + 1 } := rfl

theorem fkCmdSetex_serving (serves : Serves right client args svr [] ∅) (enough : 3 < args.length) :
    Serving right client args (fkCmdSetex client args) svr := by
  obtain ⟨key, isKey, member, _⟩ := getArg_ok (show 1 < args.length by omega)
  obtain ⟨exp, isExp, inside, _⟩ := getArg_ok (show 2 < args.length by omega)
  obtain ⟨value, isValue, valueInside, _⟩ := getArg_ok enough
  refine Serving.after (isKey svr) (Serving.after (isExp svr) (Serving.after (isValue svr) ?_))
  refine Serving.look serves (rawStr_reads serves.ok (serves.arg inside).1) fun casts still => ?_
  refine Serving.after (nowMillis_eq _) ?_
  have timed := still.ok.withReadings (svr.readings + 1)
  generalize toInt64 _ = deadline
  have empty : svr.items.content.Typed (.num deadline) := ⟨nofun, nofun⟩
  obtain ⟨expItem, items, created, unused, made, content⟩ := create_ok (.num deadline) timed empty
  refine Serving.after (onItems_eq created) ?_
  have begun : Serves right client args
      { svr with items := items, casts := casts, readings := svr.readings + 1 } []
      (insert expItem ∅) := ⟨made, serves.conn⟩
  obtain ⟨idx, db, below⟩ := begun.db
  obtain ⟨middle, first, rest, between⟩ := begun.set below member valueInside
  have isFresh : expItem ∈ insert expItem (∅ : Set Nat) := Set.mem_insert ..
  have number : middle.items.content.IsNum expItem := by
    refine ⟨deadline, (Shrinks.of_live rest.items (between.ok.exact.live expItem isFresh)).trans ?_⟩
    change items.content expItem = _
    rw [content, Function.update_self]
    rfl
  have still : idx < middle.dbcnt := by
    rw [rest.dbcnt]
    exact below
  obtain ⟨after, second, _, last⟩ := between.replace true still member number (.inl isFresh)
  rw [insert_empty_eq, Set.sdiff_self] at last
  exact Serving.after db (Serving.after first (Serving.after second (reply_serving _ last)))

theorem pairs_mem {pair : Nat × Nat} (member : pair ∈ pairs args) :
    pair.1 ∈ args ∧ pair.2 ∈ args := by
  induction args using pairs.induct with
  | case1 key value rest ih =>
      rw [pairs] at member
      rcases List.mem_cons.mp member with rfl | later
      · exact ⟨List.mem_cons_self .., List.mem_cons_of_mem _ (List.mem_cons_self ..)⟩
      · obtain ⟨first, second⟩ := ih later
        exact ⟨List.mem_cons_of_mem _ (List.mem_cons_of_mem _ first),
          List.mem_cons_of_mem _ (List.mem_cons_of_mem _ second)⟩
  | case2 other short =>
      rw [pairs.eq_2 other short] at member
      cases member

theorem setAll_ok {idx : Nat} (all : List (Nat × Nat))
    (serves : Serves right client args svr extra fresh) (below : idx < svr.dbcnt)
    (inside : ∀ pair ∈ all, pair.1 ∈ args ∧ pair.2 ∈ args) :
    ∃ after, Act.forEach (fun pair => dbReplace (false, idx) pair.1 pair.2) all svr = .ok () after ∧
      Serves right client args after extra fresh := by
  induction all generalizing svr with
  | nil => exact ⟨svr, rfl, serves⟩
  | cons pair rest ih =>
      obtain ⟨member, held⟩ := inside pair (List.mem_cons_self ..)
      obtain ⟨middle, called, left, between⟩ := serves.set below member held
      obtain ⟨after, more, last⟩ := ih between (by
        rw [left.dbcnt]
        exact below) fun other member => inside other (List.mem_cons_of_mem _ member)
      exact ⟨after, (Act.bind_ok called).trans more, last⟩

theorem fkCmdMset_serving (serves : Serves right client args svr [] ∅) :
    Serving right client args (fkCmdMset client args) svr := by
  unfold fkCmdMset
  split
  · exact reply_serving _ serves
  · obtain ⟨idx, db, below⟩ := serves.db
    obtain ⟨after, called, last⟩ := setAll_ok (pairs (args.drop 1)) serves below fun pair member =>
      ⟨List.mem_of_mem_drop (pairs_mem member).1, List.mem_of_mem_drop (pairs_mem member).2⟩
    exact Serving.after db (Serving.after called (reply_serving _ last))

/-- The key must stay when it goes from the values. -/
theorem fkHandleExpiredKey_ok {idx : Nat} (ok : Ok right svr extra fresh) (below : idx < svr.dbcnt)
    (is : svr.items.content.IsStr key)
    (stays : ∀ after, Ok right after extra fresh → after.conns = svr.conns →
      after.dicts.find (true, idx) = svr.dicts.find (true, idx) → after.items.content.IsStr key) :
    ∃ expired after, fkHandleExpiredKey idx key svr = .ok expired after ∧ Rest svr after ∧
      Ok right after extra fresh := by
  obtain ⟨deadlines, found⟩ := ok.there true idx below
  obtain ⟨casts, got, still⟩ := dbGet_reads ok found is
  unfold fkHandleExpiredKey
  cases deadline : fkDictGet svr.items.content.eop deadlines key with
  | none =>
      rw [deadline] at got
      exact ⟨false, _, (Act.bind_ok got).trans rfl, ⟨rfl, rfl, .of_eq rfl⟩, still⟩
  | some exp =>
      rw [deadline] at got
      obtain ⟨number, isNum⟩ := ok.belongs found deadline
      obtain ⟨casts, looked, still⟩ := rawNum_reads still isNum
      have timed := still.withReadings (svr.readings + 1)
      by_cases past : number < svr.clock svr.readings
      · obtain ⟨values, there⟩ := ok.there false idx below
        obtain ⟨_, middle, first, rest, between, others⟩ := dbRemove_ok timed there is
        have same := others (true, idx) (by rintro ⟨⟩)
        have removedIs := stays middle between rest.conns same
        obtain ⟨_, after, second, further, last, _⟩ :=
          dbRemove_ok between (same.trans found) removedIs
        refine ⟨true, after, ?_, ⟨further.conns.trans rest.conns,
          further.dbcnt.trans rest.dbcnt, ?_⟩, last⟩
        · refine (Act.bind_ok got).trans
            ((Act.bind_ok looked).trans ((Act.bind_ok (nowMillis_eq _)).trans ?_))
          dsimp only
          rw [if_pos past]
          exact (Act.bind_ok first).trans ((Act.bind_ok second).trans rfl)
        · exact Shrinks.trans rest.items further.items
      · refine ⟨false, { svr with casts := casts, readings := svr.readings + 1 }, ?_,
          ⟨rfl, rfl, .of_eq rfl⟩, timed⟩
        refine (Act.bind_ok got).trans
          ((Act.bind_ok looked).trans ((Act.bind_ok (nowMillis_eq _)).trans ?_))
        dsimp only
        rw [if_neg past]
        rfl

/-- The value of a key of the request. -/
theorem Serves.alive {idx : Nat} (serves : Serves right client args svr extra fresh)
    (below : idx < svr.dbcnt) (member : key ∈ args) :
    ∃ value after, getAlive (false, idx) key svr = .ok value after ∧ Rest svr after ∧
      Serves right client args after extra fresh ∧ ∀ id, value = some id →
      after.items.content.IsValue id := by
  obtain ⟨expired, middle, called, rest, ok⟩ :=
    fkHandleExpiredKey_ok serves.ok below (serves.arg member).1 fun after ok conns _ => by
      obtain ⟨conn, found, rfl⟩ := serves.conn
      exact ok.args client conn (by rw [conns]; exact found) key member
  unfold getAlive
  cases expired with
  | true =>
      exact ⟨none, middle, (Act.bind_ok called).trans rfl, rest, serves.of_rest rest ok,
        fun id absent => absurd absent.symm (Option.some_ne_none id)⟩
  | false =>
      have between := serves.of_rest rest ok
      rw [← rest.dbcnt] at below
      obtain ⟨values, found⟩ := ok.there false idx below
      obtain ⟨casts, got, still⟩ := dbGet_reads ok found (between.arg member).1
      exact ⟨_, _, (Act.bind_ok called).trans got, ⟨rest.conns, rest.dbcnt, rest.items⟩,
        ⟨still, between.conn⟩, fun id is => ok.belongs found is⟩

theorem replyStr_ends (serves : Serves right client args svr [] ∅)
    (is : svr.items.content.IsStr id) :
    Act.Ends (replyStr client id) svr (fun _ after => Serves right client args after [] ∅ ∧
      after.items = svr.items) fun after => Serves right client args after [] ∅ := by
  obtain ⟨casts, called, still⟩ := rawStr_reads serves.ok is
  exact Act.Ends.after called (reply_ends _ ⟨still, serves.conn⟩)

theorem replyStr_serving (serves : Serves right client args svr [] ∅)
    (is : svr.items.content.IsStr id) :
    Serving right client args (replyStr client id) svr :=
  (replyStr_ends serves is).imp (fun _ _ both => both.1) fun _ still => still

/-- A string item is of that type. -/
theorem isStr_of_type {entity : Entity} (ok : Ok right svr extra fresh)
    (there : svr.items.content id = some (.str, entity)) :
    svr.items.content.IsStr id := by
  obtain ⟨same, _⟩ := ok.exact.typed id .str entity there
  cases entity with
  | str bytes => exact ⟨bytes, there⟩
  | _ => cases same

/-- The three cases of a value. -/
theorem ofType_serving {type : FkItemType} {value : Option Nat} {absent : Act FkSvr Unit}
    {work : Nat → Act FkSvr Unit} (serves : Serves right client args svr [] ∅)
    (known : ∀ id, value = some id → (svr.items.content id).isSome = true)
    (nothing : value = none → Serving right client args absent svr)
    (works : ∀ id entity, value = some id → svr.items.content id = some (type, entity) →
      Serving right client args (work id) svr) :
    Serving right client args (ofType client type value absent work) svr := by
  cases value with
  | none => exact nothing rfl
  | some id =>
      obtain ⟨_, _, there⟩ := content_of_live (known id rfl)
      obtain ⟨item, looked, rfl, rfl⟩ := itemAt_eq there
      refine Serving.after looked ?_
      split
      · exact reply_serving _ serves
      · next same =>
          rw [Classical.not_not.mp same] at there
          exact works id _ rfl there

theorem mgetOne_serving (serves : Serves right client args svr [] ∅) (member : key ∈ args) :
    Serving right client args (mgetOne client key) svr := by
  obtain ⟨idx, db, below⟩ := serves.db
  obtain ⟨value, middle, called, rest, between, known⟩ := serves.alive below member
  refine Serving.after db (Serving.after called ?_)
  cases value with
  | none => exact reply_serving _ between
  | some id =>
      obtain ⟨type, entity, there, _⟩ := known id rfl
      obtain ⟨item, looked, rfl, rfl⟩ := itemAt_eq there
      refine Serving.after looked ?_
      split
      · exact reply_serving _ between
      · next same =>
          rw [Classical.not_not.mp same] at there
          exact replyStr_serving between (isStr_of_type between.ok there)

theorem fkCmdMget_serving (serves : Serves right client args svr [] ∅) :
    Serving right client args (fkCmdMget client args) svr := by
  refine Serving.bind (reply_serving _ serves) fun _ after between => ?_
  exact Act.Ends.forEach (args.drop 1)
    (fun key member state still => mgetOne_serving still (List.mem_of_mem_drop member)) between

theorem fkCmdGet_serving (serves : Serves right client args svr [] ∅) (enough : 1 < args.length) :
    Serving right client args (fkCmdGet client args) svr := by
  obtain ⟨key, isKey, member, _⟩ := getArg_ok enough
  obtain ⟨idx, db, below⟩ := serves.db
  obtain ⟨value, middle, called, rest, between, known⟩ := serves.alive below member
  refine Serving.after (isKey svr) (Serving.after db (Serving.after called ?_))
  refine ofType_serving between (fun id is => @Content.Belongs.live _ _ false (known id is))
    (fun _ => reply_serving _ between) ?_
  exact fun id entity _ there => replyStr_serving between (isStr_of_type between.ok there)

/-! ## `fk_svr_list.c` -/

theorem insertNodes_perm (pos : ListPos) (nodes more : List Nat) :
    (more.foldl (insertNode pos) nodes).Perm (more ++ nodes) := by
  induction more generalizing nodes with
  | nil => exact .refl _
  | cons node rest ih =>
      have inserted : (insertNode pos nodes node).Perm (node :: nodes) := by
        cases pos with
        | head => exact .refl _
        | tail => exact List.perm_append_singleton node nodes
      exact (ih _).trans ((inserted.append_left rest).trans List.perm_middle)

theorem pushAll_ok {more : List Nat} (pos : ListPos) (nodes : List Nat) (ok : Ok right svr extra ∅)
    (strs : ∀ node ∈ more, svr.items.content.IsStr node) :
    ∃ items pushed, pushAll pos nodes more svr = .ok pushed { svr with items := items } ∧
      Ok right { svr with items := items } (more ++ extra) ∅ ∧ items.content = svr.items.content ∧
      pushed.Perm (more ++ nodes) := by
  obtain ⟨items, taken, after, same⟩ := incRefs_ok ok fun node member => (strs node member).live
  exact ⟨items, _, (Act.bind_ok (onItems_eq taken)).trans rfl, after, same,
    insertNodes_perm pos nodes more⟩

/-- New items do not make a key present. -/
theorem fkDictGet_newItem {content : Content} (value : FkItemType × Entity)
    (wf : dct.Wf content.eop) (keys : ∀ elt ∈ dct.elements, content.IsStr elt.1)
    (is : content.IsStr key) (unused : content id = none)
    (absent : fkDictGet content.eop dct key = none) :
    fkDictGet (Content.eop (Function.update content id (some value))) dct key = none := by
  have same : ∀ {str}, content.IsStr str →
      Content.strOf (Function.update content id (some value)) str = content.strOf str := by
    rintro str ⟨bytes, isStr⟩
    have apart : str ≠ id := by
      rintro rfl
      rw [unused] at isStr
      cases isStr
    rw [Content.strOf, Content.strOf, Function.update_of_ne apart]
  rw [fkDictGet_none_iff (wf_withKeys wf fun elt member => same (keys elt member))]
  intro elt member
  rw [same (keys elt member), same is]
  exact (fkDictGet_none_iff wf).mp absent elt member

/-- A list or dictionary is made and stored under a key that is not there. -/
theorem Serves.store {idx : Nat} {entity : Entity} {next : Act FkSvr Unit}
    (serves : Serves right client args svr entity.slots ∅)
    (found : svr.dicts.find (false, idx) = some dct) (member : key ∈ args)
    (absent : fkDictGet svr.items.content.eop dct key = none)
    (typed : svr.items.content.Typed entity) (kind : entity.type = .list ∨ entity.type = .dict)
    (later : ∀ after, Serves right client args after [] ∅ → Serving right client args next after) :
    Serving right client args (onItems (fkItemCreate entity.type entity) >>= fun item =>
      dbAdd (false, idx) key item >>= fun _ => next) svr := by
  have ok := serves.ok
  rw [← List.append_nil entity.slots] at ok
  obtain ⟨item, items, created, unused, made, content⟩ := create_ok entity ok typed
  obtain ⟨wf, keys, _⟩ := ok.dicts _ dct found
  obtain ⟨is, _, _⟩ := serves.arg member
  have begun : Serves right client args { svr with items := items } [] (insert item ∅) :=
    ⟨made, serves.conn⟩
  have still := fkDictGet_newItem (entity.type, entity) wf keys is unused absent
  rw [← content] at still
  have belongs : items.content.Belongs false item := by
    refine ⟨entity.type, entity, by rw [content, Function.update_self], ?_⟩
    rcases kind with list | dict
    · exact .inr (.inl list)
    · exact .inr (.inr (.inl dict))
  obtain ⟨after, added, rest, last⟩ := dbAdd_absent made found (begun.arg member).1 belongs still
  rw [Set.sdiff_sdiff_comm, insert_empty_eq, Set.sdiff_self, Set.empty_sdiff] at last
  exact Serving.after (onItems_eq created)
    (Serving.after added (later after (begun.of_rest rest last)))

theorem Content.IsValue.live {content : Content} (is : content.IsValue id) :
    (content id).isSome = true :=
  @Content.Belongs.live content id false is

/-- The entity of a list item. -/
theorem isList_of_type {entity : Entity} (ok : Ok right svr extra fresh)
    (there : svr.items.content id = some (.list, entity)) :
    ∃ nodes, entity = .list nodes ∧ ∀ node ∈ nodes, svr.items.content.IsStr node := by
  obtain ⟨same, typed⟩ := ok.exact.typed id .list entity there
  cases entity with
  | list nodes => exact ⟨nodes, rfl, typed.slots⟩
  | _ => cases same

/-- A list of strings may be the entity of an item. -/
theorem typed_list {content : Content} {nodes : List Nat}
    (strs : ∀ node ∈ nodes, content.IsStr node) :
    content.Typed (.list nodes) := ⟨strs, nofun⟩

theorem fkCmdGenericPush_serving (pos : ListPos) (serves : Serves right client args svr [] ∅)
    (enough : 1 < args.length) :
    Serving right client args (fkCmdGenericPush pos client args) svr := by
  obtain ⟨key, isKey, member, _⟩ := getArg_ok enough
  refine Serving.after (isKey svr)
    (Serving.lookUp serves (serves.arg member).1 fun idx dct casts _ found still => ?_)
  have strs : ∀ node ∈ args.drop 2, svr.items.content.IsStr node := fun node inside =>
    (serves.arg (List.mem_of_mem_drop inside)).1
  refine ofType_serving still (fun id is => Content.IsValue.live (serves.ok.belongs found is))
    (fun absent => ?_) fun id entity _ there => ?_
  · obtain ⟨items, pushed, called, ok, same, perm⟩ := pushAll_ok pos [] still.ok strs
    rw [List.append_nil] at perm ok
    have begun : Serves right client args { svr with items := items, casts := casts }
        (Entity.list pushed).slots ∅ :=
      ⟨ok.perm perm.symm, serves.conn⟩
    refine Serving.after called
      (begun.store found member ?_ (typed_list fun node inside => ?_) (.inl rfl) fun _ last => ?_)
    · dsimp only
      rw [same]
      exact absent
    · dsimp only
      rw [same]
      exact strs node (perm.subset inside)
    · exact reply_serving _ last
  · obtain ⟨nodes, rfl, old⟩ := isList_of_type still.ok there
    refine Serving.look still (rawList_reads still.ok there) fun casts still => ?_
    obtain ⟨items, pushed, called, ok, same, perm⟩ := pushAll_ok pos nodes still.ok strs
    have unchanged : items.content id = some (.list, .list nodes) := by
      rw [same]
      exact there
    have typed : items.content.Typed (.list pushed) := typed_list fun node inside => by
      rw [same]
      rcases List.mem_append.mp (perm.subset inside) with new | before
      · exact strs node new
      · exact old node before
    have slots : ∀ slot, pushed.count slot + ([] : List Nat).count slot = nodes.count slot +
        (args.drop 2).count slot := by
      intro slot
      rw [perm.count_eq, List.count_append, List.count_nil, Nat.add_zero]
      exact Nat.add_comm _ _
    obtain ⟨final, set, last⟩ :=
      setEntity_ok (.list pushed) (args.drop 2) [] ok unchanged rfl (.inl rfl) slots typed
    exact Serving.after called
      (Serving.after (onItems_eq set) (reply_serving _ ⟨last, serves.conn⟩))

/-- The node at an end, and the others. -/
theorem endNode_cut {pos : ListPos} {nodes : List Nat} {node : Nat}
    (at_end : endNode pos nodes = some node) (slot : Nat) :
    (cutNode pos nodes).count slot + [node].count slot = nodes.count slot := by
  cases pos with
  | head =>
      obtain ⟨rest, rfl⟩ := List.head?_eq_some_iff.mp at_end
      change rest.count slot + [node].count slot = (node :: rest).count slot
      rw [← List.count_append]
      exact (List.perm_append_singleton node rest).count_eq slot
  | tail =>
      obtain ⟨front, rfl⟩ := List.getLast?_eq_some_iff.mp at_end
      change (front ++ [node]).dropLast.count slot + _ = _
      rw [List.dropLast_concat, List.count_append]

theorem fkCmdGenericPop_serving (pos : ListPos) (serves : Serves right client args svr [] ∅)
    (enough : 1 < args.length) :
    Serving right client args (fkCmdGenericPop pos client args) svr := by
  obtain ⟨key, isKey, member, _⟩ := getArg_ok enough
  refine Serving.after (isKey svr)
    (Serving.lookUp serves (serves.arg member).1 fun idx dct casts _ found still => ?_)
  refine ofType_serving still (fun id is => Content.IsValue.live (serves.ok.belongs found is))
    (fun _ => reply_serving _ still) fun id entity _ there => ?_
  obtain ⟨nodes, rfl, strs⟩ := isList_of_type still.ok there
  refine Serving.look still (rawList_reads still.ok there) fun casts still => ?_
  cases picked : endNode pos nodes with
  | none => exact reply_serving _ still
  | some node =>
      have cut := endNode_cut picked
      have inside : node ∈ nodes := by
        rw [← List.count_pos_iff, ← cut node, List.count_singleton_self]
        exact Nat.succ_pos _
      refine Act.Ends.bind (replyStr_ends still (strs node inside)) fun _ middle both => ?_
      obtain ⟨between, same⟩ := both
      have unchanged : middle.items.content id = some (.list, .list nodes) := by
        rw [same]
        exact there
      have typed : middle.items.content.Typed (.list (cutNode pos nodes)) :=
        typed_list fun other left => by
          rw [same]
          refine strs other ?_
          have positive := List.count_pos_iff.mpr left
          rw [← List.count_pos_iff, ← cut other]
          omega
      obtain ⟨items, set, emptied⟩ :=
        setEntity_ok (.list (cutNode pos nodes)) [] [node] between.ok unchanged rfl
            (.inl rfl) cut typed
      obtain ⟨final, released, last, _⟩ := decRef_ok emptied
      exact Serving.after (onItems_eq set)
        (Serving.of_ok (onItems_eq released) ⟨last, between.conn⟩)

theorem fkCmdLlen_serving (serves : Serves right client args svr [] ∅) (enough : 1 < args.length) :
    Serving right client args (fkCmdLlen client args) svr := by
  obtain ⟨key, isKey, member, _⟩ := getArg_ok enough
  refine Serving.after (isKey svr)
    (Serving.lookUp serves (serves.arg member).1 fun idx dct casts _ found still => ?_)
  refine ofType_serving still (fun id is => Content.IsValue.live (serves.ok.belongs found is))
    (fun _ => reply_serving _ still) fun id entity _ there => ?_
  obtain ⟨nodes, rfl, strs⟩ := isList_of_type still.ok there
  exact Serving.look still (rawList_reads still.ok there) fun casts still => reply_serving _ still

/-! ## `fk_svr_hash.c` -/

/-- The entity of a dictionary item. -/
theorem isDict_of_type {entity : Entity} (ok : Ok right svr extra fresh)
    (there : svr.items.content id = some (.dict, entity)) :
    ∃ fields, entity = .dict fields ∧ fields.Wf svr.items.content.eop ∧
      ∀ elt ∈ fields.elements, svr.items.content.IsStr elt.1 ∧ svr.items.content.IsStr elt.2 := by
  obtain ⟨same, typed⟩ := ok.exact.typed id .dict entity there
  cases entity with
  | dict fields =>
      refine ⟨fields, rfl, typed.fields fields rfl, fun elt member => ⟨?_, ?_⟩⟩
      · exact typed.slots _ (key_mem_slots member)
      · exact typed.slots _ (List.mem_flatMap.mpr
          ⟨elt, member, List.mem_cons_of_mem _ (List.mem_cons_self ..)⟩)
  | _ => cases same

/-- A dictionary of strings may be the entity of an item. -/
theorem typed_dict {content : Content} {fields : FkDict Nat Nat} {elts : List (Nat × Nat)}
    (wf : fields.Wf content.eop) (perm : fields.elements.Perm elts)
    (strs : ∀ elt ∈ elts, content.IsStr elt.1 ∧ content.IsStr elt.2) :
    content.Typed (.dict fields) := by
  refine ⟨fun slot member => ?_, fun other same => ?_⟩
  · obtain ⟨elt, inside, either⟩ := List.mem_flatMap.mp ((dictSlots_perm perm).subset member)
    rcases List.mem_cons.mp either with rfl | only
    · exact (strs elt inside).1
    · rw [List.mem_singleton.mp only]
      exact (strs elt inside).2
  · cases same
    exact wf

theorem fkCmdHset_serving (serves : Serves right client args svr [] ∅) (enough : 3 < args.length) :
    Serving right client args (fkCmdHset client args) svr := by
  obtain ⟨hkey, isHkey, member, _⟩ := getArg_ok (show 1 < args.length by omega)
  obtain ⟨key, isKey, inside, _⟩ := getArg_ok (show 2 < args.length by omega)
  obtain ⟨value, isValue, valueInside, _⟩ := getArg_ok enough
  obtain ⟨keyIs, _, _⟩ := serves.arg inside
  obtain ⟨valueIs, _, _⟩ := serves.arg valueInside
  refine Serving.after (isHkey svr) (Serving.after (isKey svr)
    (Serving.lookUp serves (serves.arg member).1 fun idx dct casts _ found still => ?_))
  refine ofType_serving still (fun id is => Content.IsValue.live (serves.ok.belongs found is))
    (fun absent => ?_) fun id entity _ there => ?_
  · refine Serving.after (isValue _) ?_
    have none : ∀ elt ∈ (fkDictCreate : FkDict Nat Nat).elements,
        svr.items.content.IsStr elt.1 := by
      intro elt stored
      rw [fkDictCreate, fkDictInit_elements] at stored
      cases stored
    have empty : fkDictGet svr.items.content.eop (fkDictCreate : FkDict Nat Nat) key = .none :=
      congrFun (fkDictGet_init svr.items.content.eop_lawful) key
    obtain ⟨items, casts, added, called, same, wf, perm, ok⟩ :=
      dictAdd_absent still.ok fkDictInit_wf none keyIs valueIs.live empty
    rw [fkDictInit_elements] at perm
    rw [Set.empty_sdiff, Set.empty_sdiff] at ok
    have begun : Serves right client args { svr with items := items, casts := casts }
        (Entity.dict added).slots ∅ :=
      ⟨ok.perm ((List.Perm.swap ..).trans (dictSlots_perm perm).symm), serves.conn⟩
    refine Serving.after called
      (begun.store found member ?_
        (typed_dict (?_ : added.Wf items.content.eop) perm fun elt stored => ?_)
      (.inr rfl) fun _ last => reply_serving _ last)
    · dsimp only
      rw [same]
      exact absent
    · rw [same]
      exact wf
    · dsimp only
      rw [same, List.mem_singleton.mp stored]
      exact ⟨keyIs, valueIs⟩
  · obtain ⟨fields, rfl, wf, strs⟩ := isDict_of_type still.ok there
    refine Serving.look still (rawDict_reads still.ok there) fun casts still => ?_
    refine Serving.after (isValue _) ?_
    by_cases absent : fkDictGet svr.items.content.eop fields key = .none
    · obtain ⟨items, casts, added, called, same, addedWf, perm, ok⟩ :=
        dictAdd_absent still.ok wf (fun elt stored => (strs elt stored).1) keyIs valueIs.live absent
      rw [Set.empty_sdiff, Set.empty_sdiff] at ok
      have unchanged : items.content id = some (.dict, .dict fields) := by
        rw [same]
        exact there
      have typed : items.content.Typed (.dict added) := by
        rw [same]
        refine typed_dict addedWf perm fun elt stored => ?_
        rcases List.mem_cons.mp stored with rfl | old
        · exact ⟨keyIs, valueIs⟩
        · exact strs elt old
      have slots : ∀ slot, (dictSlots added).count slot + ([] : List Nat).count slot =
          (dictSlots fields).count slot + [value, key].count slot := by
        intro slot
        rw [(dictSlots_perm perm).count_eq]
        unfold slotsOf dictSlots
        rw [List.flatMap_cons, List.count_append]
        simp only [List.count_cons, List.count_nil]
        omega
      obtain ⟨final, set, last⟩ :=
        setEntity_ok (.dict added) [value, key] [] ok unchanged rfl (.inr rfl) slots typed
      exact Serving.after called
        (Serving.after (onItems_eq set) (reply_serving _ ⟨last, serves.conn⟩))
    · obtain ⟨casts, kept, called, keptWf, perm, _, ok⟩ :=
        @dictAdd_present _ _ _ _ _ _ value still.ok wf (fun elt stored => (strs elt stored).1)
          keyIs absent
      have slots : ∀ slot, (dictSlots kept).count slot + ([] : List Nat).count slot =
          (dictSlots fields).count slot + ([] : List Nat).count slot := by
        intro slot
        rw [(dictSlots_perm perm).count_eq]
        rfl
      obtain ⟨final, set, last⟩ :=
        setEntity_ok (.dict kept) [] [] ok there rfl (.inr rfl) slots (typed_dict keptWf perm strs)
      exact Serving.after called
        (Serving.after (onItems_eq set) (reply_serving _ ⟨last, serves.conn⟩))

theorem fkCmdHget_serving (serves : Serves right client args svr [] ∅) (enough : 2 < args.length) :
    Serving right client args (fkCmdHget client args) svr := by
  obtain ⟨hkey, isHkey, member, _⟩ := getArg_ok (show 1 < args.length by omega)
  obtain ⟨key, isKey, inside, _⟩ := getArg_ok enough
  refine Serving.after (isHkey svr) (Serving.after (isKey svr)
    (Serving.lookUp serves (serves.arg member).1 fun idx dct casts _ found still => ?_))
  refine ofType_serving still (fun id is => Content.IsValue.live (serves.ok.belongs found is))
    (fun _ => reply_serving _ still) fun id entity _ there => ?_
  obtain ⟨fields, rfl, wf, strs⟩ := isDict_of_type still.ok there
  refine Serving.look still (rawDict_reads still.ok there) fun casts still => ?_
  refine Serving.look still (dictGet_reads still.ok (serves.arg inside).1 fun elt stored =>
    (strs elt stored).1) fun casts still => ?_
  refine ofType_serving still (fun value is => ?_) (fun _ => reply_serving _ still)
    fun value entity _ there => ?_
  · obtain ⟨stored, held, _⟩ := (wf.represents svr.items.content.eop_lawful key value).mp is
    exact (strs _ held).2.live
  · exact replyStr_serving still (isStr_of_type still.ok there)

/-! ## `fk_svr_zset.c` -/

/-- The key of the request is not in the selected database. -/
def KeyIsNew (svr : FkSvr) (client : Nat) (args : List Nat) : Prop :=
  ∀ conn key dct, svr.conns.find client = some conn → args[1]? = some key →
    svr.dicts.find (false, conn.out.dbIdx) = some dct →
      fkDictGet svr.items.content.eop dct key = none

/-- Without the value of a key the command crashes; with one, the value is taken for a skip list. -/
theorem fkCmdZadd_serving (serves : Serves right client args svr [] ∅) (enough : 1 < args.length)
    (absent : right → KeyIsNew svr client args) :
    Serving right client args (fkCmdZadd client args) svr := by
  obtain ⟨key, isKey, member, isSecond⟩ := getArg_ok enough
  refine Serving.after (isKey svr)
    (Serving.lookUp serves (serves.arg member).1 fun idx dct casts db found still => ?_)
  cases value : fkDictGet svr.items.content.eop dct key with
  | none =>
      exact ⟨⟨still.ok.exact, still.ok.dicts, still.ok.there, still.ok.positive, still.ok.args,
        still.ok.names, still.ok.dbIdx,
      still.ok.casts⟩, still.conn⟩
  | some item =>
      obtain ⟨_, _, there⟩ := content_of_live (Content.IsValue.live (serves.ok.belongs found value))
      obtain ⟨stored, isStored⟩ := find_of_content (by rw [there]; rfl)
      have taken : raw .sklist item { svr with casts := casts } =
          .ok stored.entity { svr with casts := (stored.type, .sklist) :: casts } := by
        unfold raw
        rw [isStored]
      have wrong : Serves right client args
          { svr with casts := (stored.type, .sklist) :: casts } [] ∅ := by
        refine ⟨serves.ok.withCasts fun good => ?_, serves.conn⟩
        obtain ⟨conn, isConn, selected⟩ := serves.selected db
        rw [selected] at found
        have none := absent good conn key dct isConn isSecond found
        rw [value] at none
        cases none
      refine Serving.after taken ?_
      split
      · exact reply_serving _ wrong
      · have looked : Reads right [] ∅
            (Act.forEach (fun pair => lookStr pair.1) (pairs (args.drop 2)))
            { svr with casts := (stored.type, .sklist) :: casts } () :=
          forEach_reads wrong.ok fun pair inside _ still =>
            lookStr_reads still (serves.arg (List.mem_of_mem_drop (pairs_mem inside).1)).1
        exact Serving.look wrong looked fun _ still => reply_serving _ still

end Freekick.Refs
