import Freekick.Refs.Mimic
import Freekick.Store.Invariant

/-!
# Handlers on items and on values

One lemma for each handler: on items it does what it does on the values that they stand for.
-/

namespace Freekick.Refs

open Lib Lib.Call FkItems

variable {scene : Scene} {svr : FkSvr} {work : Work} {plain : Freekick.FkSvr} {extra : List Nat}
  {fresh : Set Nat} {key value : Nat} {said : List Bytes}

/-! ## Databases of the client -/

namespace Mirrors

theorem get (mirrors : Mirrors scene svr work extra fresh) (member : key ∈ scene.args) :
    ∃ dct, svr.dicts.find (false, work.out.dbIdx) = some dct ∧
      Reads False extra fresh (dbGet (false, work.out.dbIdx) key) svr
        (fkDictGet svr.items.content.eop dct key) ∧
      Freekick.dbGet (scene.text key) work =
        .ok ((fkDictGet svr.items.content.eop dct key).map svr.items.content.itemOf) work := by
  obtain ⟨dct, found, same⟩ := mirrors.dict false
  obtain ⟨is, text⟩ := mirrors.arg member
  refine ⟨dct, found, dbGet_reads mirrors.mirror.ok found is, ?_⟩
  change Outcome.ok
    (fkDictGet dbDictEop (work.svr.dict false work.out.dbIdx) (scene.text key)) work = _
  rw [same, ← text, Content.get_dictOf]

theorem replace (mirrors : Mirrors scene svr work extra fresh) (isexp : Bool)
    (member : key ∈ scene.args) (belongs : svr.items.content.Belongs isexp value)
    (held : Held svr fresh value) :
    ∃ after, dbReplace (isexp, work.out.dbIdx) key value svr = .ok () after ∧ Rest svr after ∧
      Mirrors scene after { work with
        svr := work.svr.setDict isexp work.out.dbIdx
          (fkDictReplace dbDictEop (work.svr.dict isexp work.out.dbIdx) (scene.text key)
            (svr.items.content.itemOf value)).2 } extra (fresh \ {value}) := by
  obtain ⟨dct, found, _⟩ := mirrors.dict isexp
  obtain ⟨is, text⟩ := mirrors.arg member
  obtain ⟨_, _, notFresh⟩ := mirrors.serves.arg member
  obtain ⟨after, called, rest, mirror⟩ := mirrors.mirror.replace found is belongs held notFresh
  rw [text] at mirror
  exact ⟨after, called, rest, mirrors.of_rest rest mirror⟩

/-- Both are arguments. -/
theorem set (mirrors : Mirrors scene svr work extra fresh) (member : key ∈ scene.args)
    (inside : value ∈ scene.args) :
    ∃ after final, dbReplace (false, work.out.dbIdx) key value svr = .ok () after ∧
      Freekick.dbReplace (scene.text key) (.str (scene.text value)) work = .ok () final ∧
        final.out = work.out ∧ Rest svr after ∧
      Mirrors scene after final extra fresh := by
  obtain ⟨is, held, notFresh⟩ := mirrors.serves.arg inside
  obtain ⟨after, called, rest, last⟩ := mirrors.replace false member is.isValue held
  rw [Set.sdiff_singleton_eq_self notFresh, is.itemOf, (mirrors.arg inside).2] at last
  exact ⟨after, _, called, rfl, rfl, rest, last⟩

theorem add (mirrors : Mirrors scene svr work extra fresh) {dct : FkDict Nat Nat}
    (found : svr.dicts.find (false, work.out.dbIdx) = some dct)
    (member : key ∈ scene.args) (belongs : svr.items.content.Belongs false value)
    (held : Held svr fresh value) (absent : fkDictGet svr.items.content.eop dct key = none) :
    ∃ after final, dbAdd (false, work.out.dbIdx) key value svr = .ok .ok after ∧
      Freekick.dbAdd (scene.text key) (svr.items.content.itemOf value) work = .ok () final ∧
      Mirrors scene after final extra (fresh \ {value}) := by
  obtain ⟨is, text⟩ := mirrors.arg member
  obtain ⟨_, _, notFresh⟩ := mirrors.serves.arg member
  obtain ⟨after, called, rest, mirror⟩ := mirrors.mirror.add found is belongs held absent
  rw [text, Set.sdiff_singleton_eq_self notFresh] at mirror
  exact ⟨after, _, called, rfl, mirrors.of_rest rest mirror⟩

theorem remove (mirrors : Mirrors scene svr work extra fresh) (member : key ∈ scene.args) :
    ∃ removed after final, dbRemove (false, work.out.dbIdx) key svr = .ok removed after ∧
      Freekick.dbRemove (scene.text key) work = .ok removed final ∧ final.out = work.out ∧
        Mirrors scene after final extra fresh := by
  obtain ⟨dct, found, _⟩ := mirrors.dict false
  obtain ⟨is, text⟩ := mirrors.arg member
  obtain ⟨after, called, rest, mirror, _⟩ := mirrors.mirror.remove found is
  rw [text] at mirror called
  exact ⟨_, after, _, called, rfl, rfl, mirrors.of_rest rest mirror⟩

end Mirrors

/-! ## `fk_svr_db.c` -/

theorem delLoop_mirrors (keys : List Nat) (deleted : Nat)
    (mirrors : Mirrors scene svr work extra fresh) (inside : ∀ key ∈ keys, key ∈ scene.args) :
    ∃ count after final, delLoop (false, work.out.dbIdx) keys deleted svr = .ok count after ∧
      Freekick.delLoop (keys.map scene.text) deleted work = .ok count final ∧
        Mirrors scene after final extra fresh := by
  induction keys generalizing svr work deleted with
  | nil => exact ⟨deleted, svr, work, rfl, rfl, mirrors⟩
  | cons key rest ih =>
      obtain ⟨removed, middle, between, low, high, out, kept⟩ :=
        mirrors.remove (inside key (List.mem_cons_self ..))
      obtain ⟨count, after, final, more, further, last⟩ :=
        ih (if removed then deleted + 1 else deleted) kept
          fun other member => inside other (List.mem_cons_of_mem _ member)
      rw [out] at more
      exact ⟨count, after, final, (Act.bind_ok low).trans more,
        (Act.bind_ok high).trans further, last⟩

theorem fkCmdDel_mimics (mirrors : Mirrors scene svr work [] ∅) (spoken : Spoken scene said) :
    Mimics scene (fkCmdDel scene.client scene.args) (Freekick.fkCmdDel said) svr work := by
  obtain ⟨count, after, final, low, high, last⟩ :=
    delLoop_mirrors (scene.args.drop 1) 0 mirrors fun _ => List.mem_of_mem_drop
  rw [← spoken.drop 0] at high
  exact .left_first mirrors.db.1
    (.left_first low (.right_first high (reply_mimics (Rsp.replying (.int count)) last)))

/-- Both dictionaries of an index. -/
theorem emptyBoth_mirror {idx : Nat} (mirror : Mirror svr plain extra fresh)
    (below : idx < svr.dbcnt) :
    ∃ after, emptyBoth idx svr = .ok () after ∧ Rest svr after ∧
      Mirror after ((plain.setDb idx (fkDictEmpty (plain.db idx))).setExpdb idx
        (fkDictEmpty (plain.expdb idx))) extra fresh := by
  obtain ⟨values, found⟩ := mirror.ok.there false idx below
  obtain ⟨middle, first, rest, between, apart⟩ := mirror.empty found
  obtain ⟨deadlines, there⟩ := mirror.ok.there true idx below
  rw [← apart (true, idx) (by rintro ⟨⟩)] at there
  obtain ⟨after, second, further, last, _⟩ := between.empty there
  exact ⟨after, (Act.bind_ok first).trans second, rest.trans further, last⟩

theorem fkCmdFlushdb_mimics (mirrors : Mirrors scene svr work [] ∅) :
    Mimics scene (fkCmdFlushdb scene.client scene.args) (Freekick.fkCmdFlushdb said) svr work := by
  obtain ⟨after, called, rest, mirror⟩ := emptyBoth_mirror mirrors.mirror mirrors.db.2
  refine .left_first mirrors.db.1 (.left_first called (.right_first rfl (.right_first rfl ?_)))
  exact reply_mimics (Rsp.replying (.status fkRspOk)) (mirrors.of_rest rest mirror)

theorem emptyAll_mirrors (idxs : List Nat) (mirrors : Mirrors scene svr work extra fresh)
    (below : ∀ idx ∈ idxs, idx < svr.dbcnt) :
    ∃ after final, Act.forEach emptyBoth idxs svr = .ok () after ∧
      Act.forEach flushOne idxs work = .ok () final ∧ Mirrors scene after final extra fresh := by
  induction idxs generalizing svr work with
  | nil => exact ⟨svr, work, rfl, rfl, mirrors⟩
  | cons idx others ih =>
      obtain ⟨middle, called, rest, mirror⟩ :=
        emptyBoth_mirror mirrors.mirror (below idx (List.mem_cons_self ..))
      obtain ⟨after, final, more, further, last⟩ :=
        ih (mirrors.of_rest rest mirror) fun other member => by
          rw [rest.dbcnt]
          exact below other (List.mem_cons_of_mem _ member)
      exact ⟨after, final, (Act.bind_ok called).trans more, (Act.bind_ok rfl).trans further, last⟩

theorem fkCmdFlushall_mimics (mirrors : Mirrors scene svr work [] ∅) :
    Mimics scene (fkCmdFlushall scene.client scene.args) (Freekick.fkCmdFlushall said)
      svr work := by
  obtain ⟨after, final, low, high, last⟩ :=
    emptyAll_mirrors (List.range svr.dbcnt) mirrors fun _ => List.mem_range.mp
  rw [← mirrors.mirror.alike.dbcnt] at high
  refine .left_first rfl (.left_first low (.right_first rfl (.right_first high ?_)))
  exact reply_mimics (Rsp.replying (.status fkRspOk)) last

theorem fkCmdExists_mimics (mirrors : Mirrors scene svr work [] ∅) (spoken : Spoken scene said)
    (enough : 1 < scene.args.length) :
    Mimics scene (fkCmdExists scene.client scene.args) (Freekick.fkCmdExists said) svr work := by
  obtain ⟨key, member, isKey, saysKey⟩ := spoken.get enough
  obtain ⟨dct, _, reads, got⟩ := mirrors.get member
  refine .left_first (isKey svr)
    (.left_first mirrors.db.1 (Mimics.look mirrors reads fun casts still => ?_))
  refine .right_first (saysKey work) (.right_first got ?_)
  rw [Option.isSome_map]
  exact reply_mimics (Rsp.replying (.int _)) still

/-- The dump changes the file alone. -/
theorem fkCmdSave_mimics (mirrors : Mirrors scene svr work [] ∅) :
    Mimics scene (fkCmdSave scene.client scene.args) (Freekick.fkCmdSave said) svr work := by
  have savePid : work.svr.savePid = svr.savePid := mirrors.mirror.alike.savePid
  refine .left_first rfl (.right_first rfl ?_)
  dsimp only
  rw [savePid]
  by_cases idle : svr.savePid = -1
  · obtain ⟨casts, called, _⟩ := fkKdbSave_reads mirrors.mirror.ok
    obtain ⟨dbFile, saved⟩ := fkKdbSave_svr (junkRt work.svr.junk) work.svr
    rw [if_pos idle]
    have low : Act.onlyIf (svr.savePid = -1) fkKdbSave svr = .ok () { svr with casts := casts } :=
      (if_pos idle).trans called
    obtain ⟨⟨ok, sole, ⟨dbcnt, savePid, clock, readings, junk, dicts⟩, alive⟩, conn, rest, text⟩ :=
      mirrors.withCasts casts
    refine .left_first low (.right_first rfl (reply_mimics (Rsp.replying (.status fkRspOk)) ?_))
    dsimp only
    rw [saved]
    exact ⟨⟨ok, sole, ⟨dbcnt, savePid, clock, readings, junk, dicts⟩, alive⟩, conn, rest, text⟩
  · rw [if_neg idle]
    exact .left_first (if_neg idle)
      (.right_first rfl (reply_mimics (Rsp.replying (.status fkRspOk)) mirrors))

theorem fkCmdSelect_mimics (mirrors : Mirrors scene svr work [] ∅) (spoken : Spoken scene said)
    (enough : 1 < scene.args.length) :
    Mimics scene (fkCmdSelect scene.client scene.args) (Freekick.fkCmdSelect said) svr work := by
  obtain ⟨arg, member, isArg, saysArg⟩ := spoken.get enough
  obtain ⟨is, text⟩ := mirrors.arg member
  have dbcnt : work.svr.dbcnt = svr.dbcnt := mirrors.mirror.alike.dbcnt
  refine .left_first (isArg svr)
    (Mimics.look mirrors (rawStr_reads mirrors.mirror.ok is) fun casts still => ?_)
  refine .right_first (saysArg work) (.left_first rfl (.right_first rfl ?_))
  dsimp only
  rw [dbcnt, text]
  split
  · exact reply_mimics (Rsp.replying (.error fkRspErr)) still
  · next inside =>
      obtain ⟨conn, found, _, _, out⟩ := still.conn
      have selected := still.withOut found
        { conn.out with dbIdx := (atoi (scene.text arg)).toNat } (by
          change (atoi (scene.text arg)).toNat < svr.dbcnt
          omega)
      have same : ({ work with out := { conn.out with dbIdx := (atoi (scene.text arg)).toNat } } :
          Work) = { work with out := { work.out with dbIdx := (atoi (scene.text arg)).toNat } } :=
          by rw [out]
      rw [same] at selected
      exact .left_first (connOf_eq found)
        (.left_first rfl (.right_first rfl
          (reply_mimics (Rsp.replying (.status fkRspOk)) selected)))

/-! ## `fk_svr_str.c` -/

theorem fkCmdSet_mimics (mirrors : Mirrors scene svr work [] ∅) (spoken : Spoken scene said)
    (enough : 2 < scene.args.length) :
    Mimics scene (fkCmdSet scene.client scene.args) (Freekick.fkCmdSet said) svr work := by
  obtain ⟨key, member, isKey, saysKey⟩ := spoken.get (Nat.lt_of_succ_lt enough)
  obtain ⟨value, inside, isValue, saysValue⟩ := spoken.get enough
  obtain ⟨after, final, low, high, _, _, last⟩ := mirrors.set member inside
  refine .left_first (isKey svr)
    (.left_first (isValue svr) (.left_first mirrors.db.1 (.left_first low ?_)))
  refine .right_first (saysKey work) (.right_first (saysValue work) (.right_first high ?_))
  exact reply_mimics (Rsp.replying (.status fkRspOk)) last

theorem fkCmdSetnx_mimics (mirrors : Mirrors scene svr work [] ∅) (spoken : Spoken scene said)
    (enough : 2 < scene.args.length) :
    Mimics scene (fkCmdSetnx scene.client scene.args) (Freekick.fkCmdSetnx said) svr work := by
  obtain ⟨key, member, isKey, saysKey⟩ := spoken.get (Nat.lt_of_succ_lt enough)
  obtain ⟨value, inside, isValue, saysValue⟩ := spoken.get enough
  obtain ⟨dct, found, reads, got⟩ := mirrors.get member
  refine .left_first (isKey svr)
    (.left_first mirrors.db.1 (Mimics.look mirrors reads fun casts still => ?_))
  refine .right_first (saysKey work) (.right_first got ?_)
  rw [Option.isSome_map]
  cases old : fkDictGet svr.items.content.eop dct key with
  | some id => exact reply_mimics (Rsp.replying (.int 0)) still
  | none =>
      obtain ⟨is, held, notFresh⟩ := still.serves.arg inside
      obtain ⟨after, final, low, high, last⟩ := still.add found member is.isValue held old
      rw [Set.sdiff_singleton_eq_self notFresh] at last
      rw [is.itemOf, (still.arg inside).2] at high
      refine .left_first (isValue _)
        (.left_first low (.right_first (saysValue work) (.right_first high ?_)))
      exact reply_mimics (Rsp.replying (.int 1)) last

/-- A string is what it was before an item was made. -/
theorem str_of_new {content made : Content} {new id : Nat} {item : FkItemType × Entity}
    (unused : content new = none) (changed : made = Function.update content new (some item))
    (is : content.IsStr id) : made id = content id := by
  rw [changed]
  refine Function.update_of_ne ?_ ..
  rintro rfl
  exact absurd (is.strOf.symm.trans unused) (Option.some_ne_none _)

theorem fkCmdSetex_mimics (mirrors : Mirrors scene svr work [] ∅) (spoken : Spoken scene said)
    (enough : 3 < scene.args.length) :
    Mimics scene (fkCmdSetex scene.client scene.args) (Freekick.fkCmdSetex said) svr work := by
  obtain ⟨key, member, isKey, saysKey⟩ := spoken.get (show 0 + 1 < scene.args.length by omega)
  obtain ⟨exp, inside, isExp, saysExp⟩ := spoken.get (show 1 + 1 < scene.args.length by omega)
  obtain ⟨value, valueInside, isValue, saysValue⟩ :=
    spoken.get (show 2 + 1 < scene.args.length from enough)
  obtain ⟨is, text⟩ := mirrors.arg inside
  refine .left_first (isKey svr) (.left_first (isExp svr) (.left_first (isValue svr) ?_))
  refine Mimics.look mirrors (rawStr_reads mirrors.mirror.ok is) fun casts still => ?_
  refine .right_first (saysKey work)
    (.right_first (saysExp work) (.right_first (saysValue work) ?_))
  refine .left_first (nowMillis_eq _) (.right_first rfl ?_)
  have timed := still.withReadings
  have now : work.svr.clock work.svr.readings = svr.clock svr.readings := by
    rw [mirrors.mirror.alike.clock, mirrors.mirror.alike.readings]
  dsimp only
  rw [now, text]
  generalize toInt64 _ = deadline
  have empty : svr.items.content.Typed (.num deadline) := ⟨nofun, nofun⟩
  obtain ⟨expItem, items, created, unused, made, content⟩ :=
    Mirror.create (.num deadline) timed.mirror empty
  change items.content = Function.update svr.items.content expItem _ at content
  refine .left_first (onItems_eq created) ?_
  have begun : Mirrors scene _ _ [] (insert expItem ∅) :=
    timed.withItems made fun id is _ => str_of_new unused content is
  obtain ⟨middle, between, low, high, out, rest, kept⟩ := begun.set member valueInside
  have isFresh : expItem ∈ insert expItem (∅ : Set Nat) := Set.mem_insert ..
  have there : middle.items.content expItem = some (.num, .num deadline) := by
    refine (Shrinks.of_live rest.items (kept.mirror.ok.exact.live expItem isFresh)).trans ?_
    change items.content expItem = _
    rw [content, Function.update_self]
    rfl
  obtain ⟨after, second, _, last⟩ := kept.replace true member ⟨deadline, there⟩ (.inl isFresh)
  rw [insert_empty_eq, Set.sdiff_self, Content.itemOf_of_content there] at last
  rw [out] at second
  refine .left_first begun.db.1
    (.left_first low (.left_first second (.right_first high (.right_first rfl ?_))))
  exact reply_mimics (Rsp.replying (.status fkRspOk)) last

theorem pairs_spoken (args : List Nat) (text : Nat → Bytes) :
    Freekick.pairs (args.map text) = (pairs args).map (Prod.map text text) := by
  induction args using pairs.induct with
  | case1 key value rest ih => exact congrArg (_ :: ·) ih
  | case2 other short =>
      cases other with
      | nil => rfl
      | cons key rest =>
          cases rest with
          | nil => rfl
          | cons value rest => exact (short key value rest rfl).elim

theorem setAll_mirrors (all : List (Nat × Nat)) (mirrors : Mirrors scene svr work extra fresh)
    (inside : ∀ pair ∈ all, pair.1 ∈ scene.args ∧ pair.2 ∈ scene.args) :
    ∃ after final, Act.forEach (fun pair => dbReplace (false, work.out.dbIdx) pair.1 pair.2) all
      svr = .ok () after ∧ Act.forEach (fun pair : Bytes × Bytes => Freekick.dbReplace pair.1
        (.str pair.2)) (all.map (Prod.map scene.text scene.text)) work =
        .ok () final ∧ Mirrors scene after final extra fresh := by
  induction all generalizing svr work with
  | nil => exact ⟨svr, work, rfl, rfl, mirrors⟩
  | cons pair rest ih =>
      obtain ⟨member, held⟩ := inside pair (List.mem_cons_self ..)
      obtain ⟨middle, between, low, high, out, _, kept⟩ := mirrors.set member held
      obtain ⟨after, final, more, further, last⟩ :=
        ih kept fun other member => inside other (List.mem_cons_of_mem _ member)
      rw [out] at more
      exact ⟨after, final, (Act.bind_ok low).trans more, (Act.bind_ok high).trans further, last⟩

theorem fkCmdMset_mimics (mirrors : Mirrors scene svr work [] ∅) (spoken : Spoken scene said) :
    Mimics scene (fkCmdMset scene.client scene.args) (Freekick.fkCmdMset said) svr work := by
  unfold fkCmdMset Freekick.fkCmdMset
  rw [spoken.length]
  split
  · exact reply_mimics (Rsp.replying (.error fkRspArgcErr)) mirrors
  · obtain ⟨after, final, low, high, last⟩ :=
      setAll_mirrors (pairs (scene.args.drop 1)) mirrors fun pair member =>
        ⟨List.mem_of_mem_drop (pairs_mem member).1, List.mem_of_mem_drop (pairs_mem member).2⟩
    rw [← pairs_spoken, ← spoken.drop 0] at high
    exact .left_first mirrors.db.1
      (.left_first low (.right_first high (reply_mimics (Rsp.replying (.status fkRspOk)) last)))

/-- The key must stay when it goes from the values. -/
theorem fkHandleExpiredKey_mirror {out : FkConnOut} (mirror : Mirror svr plain extra fresh)
    (below : out.dbIdx < svr.dbcnt) (is : svr.items.content.IsStr key)
    (stays : ∀ after, Ok False after extra fresh → after.conns = svr.conns →
      after.dicts.find (true, out.dbIdx) = svr.dicts.find (true, out.dbIdx) →
      after.items.content.IsStr key) :
    ∃ expired after after', fkHandleExpiredKey out.dbIdx key svr = .ok expired after ∧
      Rest svr after ∧ Freekick.fkHandleExpiredKey (svr.items.content.strOf key) ⟨plain, out⟩ =
      .ok expired ⟨after', out⟩ ∧ Mirror after after' extra fresh := by
  obtain ⟨deadlines, found⟩ := mirror.ok.there true out.dbIdx below
  have same := mirror.alike.dicts true out.dbIdx deadlines found
  obtain ⟨casts, got, still⟩ := dbGet_reads mirror.ok found is
  have looked : (Act.read fun work => fkDictGet dbDictEop (work.svr.expdb work.out.dbIdx)
      (svr.items.content.strOf key)) ⟨plain, out⟩ =
      .ok ((fkDictGet svr.items.content.eop deadlines key).map svr.items.content.itemOf)
        (⟨plain, out⟩ : Work) := by
    change Outcome.ok (fkDictGet dbDictEop (plain.dict true out.dbIdx) _) _ = _
    rw [same, Content.get_dictOf]
  unfold fkHandleExpiredKey Freekick.fkHandleExpiredKey
  rw [Act.bind_ok got, Act.bind_ok looked]
  cases deadline : fkDictGet svr.items.content.eop deadlines key with
  | none => exact ⟨false, _, plain, rfl, ⟨rfl, rfl, .of_eq rfl⟩, rfl, mirror.withCasts casts⟩
  | some exp =>
      obtain ⟨number, isNum⟩ := mirror.ok.belongs found deadline
      obtain ⟨more, raw, _⟩ := rawNum_reads still isNum
      have timed := (mirror.withCasts more).withReadings
      have now : plain.clock plain.readings = svr.clock svr.readings := by
        rw [mirror.alike.clock, mirror.alike.readings]
      rw [Option.map_some, Content.itemOf_of_content isNum]
      dsimp only [Entity.value]
      rw [Act.bind_ok raw, Act.bind_ok (nowMillis_eq _)]
      by_cases past : number < svr.clock svr.readings
      · obtain ⟨values, there⟩ := mirror.ok.there false out.dbIdx below
        obtain ⟨middle, first, rest, between, others⟩ := timed.remove there is
        have again := others (true, out.dbIdx) (by rintro ⟨⟩)
        have removedIs := stays middle between.ok rest.conns again
        obtain ⟨after, second, further, last, _⟩ := between.remove (again.trans found) removedIs
        have text : middle.items.content.strOf key = svr.items.content.strOf key :=
          Content.strOf_congr (Shrinks.of_live rest.items removedIs.live)
        rw [text] at last
        refine ⟨true, after, _, ?_,
          ⟨further.conns.trans rest.conns, further.dbcnt.trans rest.dbcnt, ?_⟩, ?_, last⟩
        · dsimp only
          rw [if_pos past]
          exact (Act.bind_ok first).trans ((Act.bind_ok second).trans rfl)
        · exact Shrinks.trans rest.items further.items
        · refine (Act.bind_ok rfl).trans ?_
          dsimp only
          rw [now, if_pos past]
          exact (Act.bind_ok rfl).trans ((Act.bind_ok rfl).trans rfl)
      · refine ⟨false, _, _, ?_, ?_, ?_, timed⟩
        · dsimp only
          rw [if_neg past]
          rfl
        · exact ⟨rfl, rfl, .of_eq rfl⟩
        · refine (Act.bind_ok rfl).trans ?_
          dsimp only
          rw [now, if_neg past]
          rfl

/-- The value of a key of the request that is not expired. -/
theorem Mirrors.alive (mirrors : Mirrors scene svr work extra fresh) (member : key ∈ scene.args) :
    ∃ value after final, getAlive (false, work.out.dbIdx) key svr = .ok value after ∧
      Freekick.getAlive (scene.text key) work = .ok (value.map after.items.content.itemOf) final ∧
        final.out = work.out ∧
      Mirrors scene after final extra fresh ∧ ∀ id, value = some id →
        after.items.content.IsValue id := by
  obtain ⟨is, text⟩ := mirrors.arg member
  obtain ⟨expired, middle, plain, low, rest, high, mirror⟩ :=
    fkHandleExpiredKey_mirror mirrors.mirror mirrors.db.2 is
      fun after ok conns _ => by
        obtain ⟨conn, found, args, _⟩ := mirrors.conn
        exact ok.args scene.client conn (by rw [conns]; exact found) key (args ▸ member)
  rw [text] at high
  have between := mirrors.of_rest rest mirror
  unfold getAlive Freekick.getAlive
  rw [Act.bind_ok low, Act.bind_ok high]
  cases expired with
  | true =>
      exact ⟨none, middle, _, rfl, rfl, rfl, between,
        fun id absent => absurd absent.symm (Option.some_ne_none id)⟩
  | false =>
      obtain ⟨dct, found, ⟨casts, reads, _⟩, got⟩ := between.get member
      exact ⟨_, _, _, reads, got, rfl, between.withCasts casts,
        fun id known => between.mirror.ok.belongs found known⟩

theorem replyStr_tandem {id : Nat} (mirrors : Mirrors scene svr work [] ∅)
    (is : svr.items.content.IsStr id) :
    Tandem (fun _ _ => Replied scene svr work) (fun after final => Mirrors scene after final [] ∅)
      (fun after => after.crashed = true) (replyStr scene.client id svr)
      (addBulkAndContent (svr.items.content.strOf id) work) := by
  obtain ⟨casts, called, _⟩ := rawStr_reads mirrors.mirror.ok is
  refine Tandem.left_first called
    ((reply_tandem (addBulkAndContent_replying _) (mirrors.withCasts casts)).imp ?_
      fun _ _ given => given)
  exact fun _ _ _ _ replied => ⟨replied.mirrors, replied.items, replied.dicts, replied.dbIdx⟩

theorem replyStr_mimics {id : Nat} (mirrors : Mirrors scene svr work [] ∅)
    (is : svr.items.content.IsStr id) :
    Mimics scene (replyStr scene.client id)
      (addBulkAndContent (svr.items.content.strOf id)) svr work :=
  (replyStr_tandem mirrors is).imp (fun _ _ _ _ replied => replied.mirrors) fun _ _ given => given

/-- What a handler does with a value: nothing there, a value of another type, or one of the type
that it works on. -/
theorem ofType_mimics {type : FkItemType} {value : Option Nat} {absent : Act FkSvr Unit}
    {low : Nat → Act FkSvr Unit} (high : Option Freekick.FkItem → Act Work Unit)
    (mirrors : Mirrors scene svr work [] ∅)
    (known : ∀ id, value = some id → (svr.items.content id).isSome = true)
    (nothing : value = none → Mimics scene absent (high none) svr work)
    (wrong : ∀ entity : Entity, entity.type ≠ type →
      high (some (entity.value svr.items.content)) = fkConnAddErrorRsp fkRspTypeErr)
    (works : ∀ id entity, value = some id → svr.items.content id = some (type, entity) →
      Mimics scene (low id) (high (some (entity.value svr.items.content))) svr work) :
    Mimics scene (ofType scene.client type value absent low)
      (high (value.map svr.items.content.itemOf)) svr work := by
  cases value with
  | none => exact nothing rfl
  | some id =>
      obtain ⟨itsType, entity, there⟩ := content_of_live (known id rfl)
      obtain ⟨same, _⟩ := mirrors.mirror.ok.exact.typed id itsType entity there
      obtain ⟨item, looked, isType, isEntity⟩ := itemAt_eq there
      rw [Option.map_some, Content.itemOf_of_content there]
      refine Tandem.left_first looked ?_
      rw [isType]
      by_cases right : itsType = type
      · rw [if_neg (not_not.mpr right)]
        rw [right] at there
        exact works id entity rfl there
      · rw [if_pos right, wrong entity (same ▸ right)]
        exact reply_mimics (Rsp.replying (.error fkRspTypeErr)) mirrors

/-- The same with the value of a key in the selected database. -/
theorem Mimics.typed {type : FkItemType} {absent : Bool × Nat → Act FkSvr Unit}
    {low : Bool × Nat → Nat → Act FkSvr Unit} {further : Option Freekick.FkItem → Act Work Unit}
    (mirrors : Mirrors scene svr work [] ∅) (member : key ∈ scene.args)
    (nothing : ∀ dct casts, svr.dicts.find (false, work.out.dbIdx) = some dct →
      fkDictGet svr.items.content.eop dct key = none →
      Mirrors scene { svr with casts := casts } work [] ∅ →
        Mimics scene (absent (false, work.out.dbIdx)) (further none)
          { svr with casts := casts } work)
    (wrong : ∀ (content : Content) (entity : Entity), entity.type ≠ type →
      further (some (entity.value content)) = fkConnAddErrorRsp fkRspTypeErr)
    (works : ∀ dct casts id entity, svr.dicts.find (false, work.out.dbIdx) = some dct →
      fkDictGet svr.items.content.eop dct key = some id →
      svr.items.content id = some (type, entity) →
        Mirrors scene { svr with casts := casts } work [] ∅ →
          Mimics scene (low (false, work.out.dbIdx) id)
            (further (some (entity.value svr.items.content))) { svr with casts := casts } work) :
    Mimics scene (dbOf scene.client >>= fun db => dbGet db key >>= fun value =>
      ofType scene.client type value (absent db) (low db))
      (Freekick.dbGet (scene.text key) >>= further) svr work := by
  obtain ⟨dct, found, reads, got⟩ := mirrors.get member
  refine .left_first mirrors.db.1 (Mimics.look mirrors reads fun casts still => .right_first got ?_)
  exact ofType_mimics further still
    (fun id is => Content.IsValue.live (still.mirror.ok.belongs found is))
    (fun absent => nothing dct casts found absent still) (wrong svr.items.content)
    fun id entity is there => works dct casts id entity found is there still

/-- The same with the value of a key that is not expired. -/
theorem Mimics.typed_alive {type : FkItemType} {absent : Act FkSvr Unit}
    {low : Nat → Act FkSvr Unit} {further : Option Freekick.FkItem → Act Work Unit}
    (mirrors : Mirrors scene svr work [] ∅) (member : key ∈ scene.args)
    (nothing : ∀ after final, Mirrors scene after final [] ∅ →
      Mimics scene absent (further none) after final)
    (wrong : ∀ (content : Content) (entity : Entity), entity.type ≠ type →
      further (some (entity.value content)) = fkConnAddErrorRsp fkRspTypeErr)
    (works : ∀ after final id entity, Mirrors scene after final [] ∅ →
      after.items.content id = some (type, entity) →
      Mimics scene (low id) (further (some (entity.value after.items.content))) after final) :
    Mimics scene (getAlive (false, work.out.dbIdx) key >>= fun value =>
      ofType scene.client type value absent low) (Freekick.getAlive (scene.text key) >>= further)
        svr work := by
  obtain ⟨value, after, final, low, high, _, between, known⟩ := mirrors.alive member
  refine .left_first low (.right_first high ?_)
  exact ofType_mimics further between (fun id is => Content.IsValue.live (known id is))
    (fun _ => nothing after final between) (wrong after.items.content) fun id entity _ there =>
    works after final id entity between there

theorem mgetOne_mimics (mirrors : Mirrors scene svr work [] ∅) (member : key ∈ scene.args) :
    Mimics scene (mgetOne scene.client key) (Freekick.mgetOne (scene.text key)) svr work := by
  obtain ⟨value, after, final, low, high, _, between, known⟩ := mirrors.alive member
  refine .left_first mirrors.db.1 (.left_first low (.right_first high ?_))
  cases value with
  | none => exact reply_mimics (Rsp.replying (.bulk fkRspNil)) between
  | some id =>
      obtain ⟨type, entity, there, _⟩ := known id rfl
      obtain ⟨same, _⟩ := between.mirror.ok.exact.typed id type entity there
      obtain ⟨item, looked, isType, _⟩ := itemAt_eq there
      rw [Option.map_some, Content.itemOf_of_content there]
      refine Tandem.left_first looked ?_
      rw [isType, same]
      cases entity with
      | str bytes =>
          have is : after.items.content.IsStr id := ⟨bytes, there.trans (by rw [same]; rfl)⟩
          have text : after.items.content.strOf id = bytes := by
            rw [Content.strOf, there]
          have answers := replyStr_mimics between is
          rw [text] at answers
          exact answers
      | _ => exact reply_mimics (Rsp.replying (.bulk fkRspNil)) between

theorem fkCmdMget_mimics (mirrors : Mirrors scene svr work [] ∅) (spoken : Spoken scene said) :
    Mimics scene (fkCmdMget scene.client scene.args) (Freekick.fkCmdMget said) svr work := by
  unfold fkCmdMget Freekick.fkCmdMget
  rw [spoken.length, spoken.drop 0]
  refine Tandem.bind (reply_mimics (Rsp.replying (.mbulk _)) mirrors) fun _ _ after final between =>
    ?_
  refine Tandem.forEach (scene.args.drop 1) scene.text
    (fun key member state also kept => ?_) between
  exact mgetOne_mimics kept (List.mem_of_mem_drop member)

theorem fkCmdGet_mimics (mirrors : Mirrors scene svr work [] ∅) (spoken : Spoken scene said)
    (enough : 1 < scene.args.length) :
    Mimics scene (fkCmdGet scene.client scene.args) (Freekick.fkCmdGet said) svr work := by
  obtain ⟨key, member, isKey, saysKey⟩ := spoken.get enough
  refine .left_first (isKey svr) (.left_first mirrors.db.1 (.right_first (saysKey work) ?_))
  refine Mimics.typed_alive mirrors member
    (fun _ _ between => reply_mimics (Rsp.replying (.bulk fkRspNil)) between)
    (fun content entity notStr => ?_) fun after final id entity between there => ?_
  · cases entity with
    | str bytes => exact (notStr rfl).elim
    | _ => rfl
  · have is := isStr_of_type between.mirror.ok there
    have whole := is.strOf
    rw [there] at whole
    cases whole
    exact replyStr_mimics between is

/-! ## `fk_svr_list.c` -/

theorem insertNodes_spoken (pos : ListPos) (nodes more : List Nat) (text : Nat → Bytes) :
    (more.foldl (insertNode pos) nodes).map text = (more.map text).foldl pos.insert
    (nodes.map text) := by
  induction more generalizing nodes with
  | nil => rfl
  | cons node rest ih =>
      rw [List.foldl_cons, ih, List.map_cons, List.foldl_cons]
      cases pos with
      | head => rfl
      | tail =>
          change _ = (rest.map text).foldl _ (nodes.map text ++ [text node])
          rw [insertNode, List.map_append]
          rfl

theorem endNode_spoken (pos : ListPos) (nodes : List Nat) (text : Nat → Bytes) :
    pos.node? (nodes.map text) = (endNode pos nodes).map text := by
  cases pos with
  | head => exact List.head?_map
  | tail => exact List.getLast?_map

theorem cutNode_spoken (pos : ListPos) (nodes : List Nat) (text : Nat → Bytes) :
    pos.remove (nodes.map text) = (cutNode pos nodes).map text := by
  cases pos with
  | head => exact (List.map_tail).symm
  | tail => exact (List.map_dropLast).symm

theorem Mirrors.pushAll {more : List Nat} (pos : ListPos) (nodes : List Nat)
    (mirrors : Mirrors scene svr work extra ∅)
    (strs : ∀ node ∈ more, svr.items.content.IsStr node) :
    ∃ items, pushAll pos nodes more svr = .ok (more.foldl (insertNode pos) nodes)
      { svr with items := items } ∧ Mirrors scene
      { svr with items := items } work (more ++ extra) ∅ ∧ items.content = svr.items.content := by
  obtain ⟨items, taken, mirror, same⟩ := mirrors.mirror.incRefs strs
  refine ⟨items, (Act.bind_ok (onItems_eq taken)).trans rfl,
    mirrors.withItems mirror fun id _ _ => ?_, same⟩
  rw [same]

/-- A list or dictionary is made and stored under a key that is not there. -/
theorem Mirrors.store {entity : Entity} {dct : FkDict Nat Nat}
    (mirrors : Mirrors scene svr work entity.slots ∅)
    (found : svr.dicts.find (false, work.out.dbIdx) = some dct) (member : key ∈ scene.args)
    (absent : fkDictGet svr.items.content.eop dct key = none)
    (typed : svr.items.content.Typed entity) (kind : entity.type = .list ∨ entity.type = .dict) :
    ∃ item middle after final, onItems (fkItemCreate entity.type entity) svr = .ok item middle ∧
      dbAdd (false, work.out.dbIdx) key item middle = .ok .ok after ∧
      Freekick.dbAdd (scene.text key) (entity.value svr.items.content) work = .ok () final ∧
        Mirrors scene after final [] ∅ := by
  have mirror := mirrors.mirror
  rw [← List.append_nil entity.slots] at mirror
  obtain ⟨item, items, created, unused, made, content⟩ := mirror.create entity typed
  have begun : Mirrors scene { svr with items := items } work [] (insert item ∅) :=
    mirrors.withItems made fun id is _ => str_of_new unused content is
  obtain ⟨wf, keys, _⟩ := mirror.ok.dicts _ dct found
  have still := fkDictGet_newItem (entity.type, entity) wf keys (mirrors.arg member).1 unused absent
  rw [← content] at still
  have there : items.content item = some (entity.type, entity) :=
    by rw [content, Function.update_self]
  have belongs : items.content.Belongs false item := by
    refine ⟨entity.type, entity, there, ?_⟩
    rcases kind with list | dict
    · exact .inr (.inl list)
    · exact .inr (.inr (.inl dict))
  have value : items.content.itemOf item = entity.value svr.items.content := by
    rw [Content.itemOf_of_content there]
    exact Entity.value_congr fun slot member =>
      Content.strOf_congr (str_of_new unused content (typed.slots slot member))
  obtain ⟨after, final, low, high, last⟩ :=
    begun.add found member belongs (.inl (Set.mem_insert ..)) still
  rw [insert_empty_eq, Set.sdiff_self] at last
  change Freekick.dbAdd (scene.text key) (items.content.itemOf item) work = _ at high
  rw [value] at high
  exact ⟨item, _, after, final, onItems_eq created, low, high, last⟩

/-- A list or hash changes in place, and the key gets it. -/
theorem Mirrors.setEntity {type : FkItemType} {id : Nat} {dct : FkDict Nat Nat} {old : Entity}
    (new : Entity) (added gone : List Nat) (mirrors : Mirrors scene svr work (added ++ extra) fresh)
    (found : svr.dicts.find (false, work.out.dbIdx) = some dct)
    (member : key ∈ scene.args) (got : fkDictGet svr.items.content.eop dct key = some id)
    (there : svr.items.content id = some (type, old)) (same : new.type = old.type)
    (kind : old.type = .list ∨ old.type = .dict)
    (slots : ∀ slot, new.slots.count slot + gone.count slot = old.slots.count slot +
      added.count slot)
    (typed : svr.items.content.Typed new) (strs : ∀ slot ∈ gone, svr.items.content.IsStr slot) :
    ∃ items final, onItems (FkItems.setEntity id new) svr = .ok () { svr with items := items } ∧
      Freekick.dbPut (scene.text key) (new.value svr.items.content) work = .ok () final ∧
      Mirrors scene { svr with items := items } final (gone ++ extra) fresh := by
  obtain ⟨items, called, mirror, content⟩ :=
    mirrors.mirror.setEntity new added gone found got there same kind slots typed strs
  obtain ⟨is, text⟩ := mirrors.arg member
  rw [text] at mirror
  refine ⟨items, _, onItems_eq called, rfl, mirrors.withItems mirror fun other isStr _ => ?_⟩
  rw [content]
  refine Function.update_of_ne ?_ ..
  rintro rfl
  exact isStr.not_owned (mirrors.mirror.ok.exact.owned there kind)

theorem fkCmdGenericPush_mimics (pos : ListPos) (mirrors : Mirrors scene svr work [] ∅)
    (spoken : Spoken scene said) (enough : 1 < scene.args.length) :
    Mimics scene (fkCmdGenericPush pos scene.client scene.args) (Freekick.fkCmdGenericPush pos said)
      svr work := by
  obtain ⟨key, member, isKey, saysKey⟩ := spoken.get enough
  have strs : ∀ node ∈ scene.args.drop 2, svr.items.content.IsStr node := fun node inside =>
    (mirrors.arg (List.mem_of_mem_drop inside)).1
  have texts : (scene.args.drop 2).map svr.items.content.strOf = said.drop 2 := by
    rw [spoken.drop 1]
    exact List.map_congr_left fun node inside => (mirrors.arg (List.mem_of_mem_drop inside)).2
  have counted : ((said.length - 2 : Nat) : Int) = (scene.args.length - 2 : Nat) :=
    by rw [spoken.length]
  refine .left_first (isKey svr) (.right_first (saysKey work) ?_)
  refine Mimics.typed mirrors member (fun dct casts found absent still => ?_)
    (fun content entity notList => ?_) fun dct casts id entity found got there still => ?_
  · obtain ⟨items, called, kept, same⟩ := still.pushAll pos [] strs
    have perm := insertNodes_perm pos [] (scene.args.drop 2)
    have text := insertNodes_spoken pos [] (scene.args.drop 2) svr.items.content.strOf
    rw [texts] at text
    obtain ⟨pushed, isPushed⟩ : ∃ pushed, (scene.args.drop 2).foldl (insertNode pos) [] = pushed :=
      ⟨_, rfl⟩
    rw [isPushed] at called perm text
    rw [List.append_nil] at perm kept
    have begun : Mirrors scene { svr with items := items, casts := casts } work
        (Entity.list pushed).slots ∅ := kept.perm perm.symm
    have typed : items.content.Typed (.list pushed) := typed_list fun node inside => by
      rw [same]
      exact strs node (perm.subset inside)
    have none : fkDictGet items.content.eop dct key = .none := by
      rw [same]
      exact absent
    obtain ⟨item, middle, after, final, created, low, high, last⟩ :=
      begun.store found member none typed (.inl rfl)
    dsimp only [Entity.value] at high
    rw [same] at high
    dsimp only at high
    rw [text] at high
    refine .left_first called (.left_first created (.left_first low (.right_first high ?_)))
    rw [counted]
    exact reply_mimics (Rsp.replying (.int _)) last
  · cases entity with
    | list nodes => exact (notList rfl).elim
    | _ => rfl
  · obtain ⟨nodes, rfl, old⟩ := isList_of_type still.mirror.ok there
    refine Mimics.look still (rawList_reads still.mirror.ok there) fun casts still => ?_
    obtain ⟨items, called, kept, same⟩ := still.pushAll pos nodes strs
    have perm := insertNodes_perm pos nodes (scene.args.drop 2)
    have text := insertNodes_spoken pos nodes (scene.args.drop 2) svr.items.content.strOf
    rw [texts] at text
    obtain ⟨pushed, isPushed⟩ : ∃ pushed, (scene.args.drop 2).foldl (insertNode pos) nodes =
        pushed := ⟨_, rfl⟩
    rw [isPushed] at called perm text
    have unchanged : items.content id = some (.list, .list nodes) := by
      rw [same]
      exact there
    have typed : items.content.Typed (.list pushed) := typed_list fun node inside => by
      rw [same]
      rcases List.mem_append.mp (perm.subset inside) with new | before
      · exact strs node new
      · exact old node before
    have slots : ∀ slot, pushed.count slot + ([] : List Nat).count slot = nodes.count slot +
        (scene.args.drop 2).count slot := by
      intro slot
      rw [perm.count_eq, List.count_append, List.count_nil, Nat.add_zero]
      exact Nat.add_comm _ _
    have stored : fkDictGet items.content.eop dct key = some id := by
      rw [same]
      exact got
    obtain ⟨last, final, set, put, kept⟩ :=
      kept.setEntity (.list pushed) (scene.args.drop 2) [] found member stored unchanged rfl
        (.inl rfl) slots typed nofun
    dsimp only [Entity.value] at put
    rw [same] at put
    dsimp only at put
    rw [text] at put
    refine .left_first called (.left_first set (.right_first put ?_))
    rw [counted]
    exact reply_mimics (Rsp.replying (.int _)) kept

theorem fkCmdGenericPop_mimics (pos : ListPos) (mirrors : Mirrors scene svr work [] ∅)
    (spoken : Spoken scene said) (enough : 1 < scene.args.length) :
    Mimics scene (fkCmdGenericPop pos scene.client scene.args) (Freekick.fkCmdGenericPop pos said)
      svr work := by
  obtain ⟨key, member, isKey, saysKey⟩ := spoken.get enough
  refine .left_first (isKey svr) (.right_first (saysKey work) ?_)
  refine Mimics.typed mirrors member
    (fun dct casts found absent still => reply_mimics (Rsp.replying (.bulk fkRspNil)) still)
    (fun content entity notList => ?_) fun dct casts id entity found got there still => ?_
  · cases entity with
    | list nodes => exact (notList rfl).elim
    | _ => rfl
  obtain ⟨nodes, rfl, strs⟩ := isList_of_type still.mirror.ok there
  refine Mimics.look still (rawList_reads still.mirror.ok there) fun casts still => ?_
  have atEnd := endNode_spoken pos nodes svr.items.content.strOf
  dsimp only [Entity.value]
  cases picked : endNode pos nodes with
  | none =>
      rw [picked] at atEnd
      rw [atEnd]
      exact reply_mimics (Rsp.replying (.bulk fkRspNil)) still
  | some node =>
      rw [picked] at atEnd
      rw [atEnd]
      have cut := endNode_cut picked
      have inside : node ∈ nodes := by
        rw [← List.count_pos_iff, ← cut node, List.count_singleton_self]
        exact Nat.succ_pos _
      refine Tandem.bind (replyStr_tandem still (strs node inside))
        fun _ _ middle between replied => ?_
      have same : middle.items = svr.items := replied.items
      have unchanged : middle.items.content id = some (.list, .list nodes) := by
        rw [same]
        exact there
      have typed : middle.items.content.Typed (.list (cutNode pos nodes)) :=
        typed_list fun other left => by
          rw [same]
          refine strs other ?_
          have positive := List.count_pos_iff.mpr left
          rw [← List.count_pos_iff, ← cut other]
          omega
      have there : middle.dicts.find (false, between.out.dbIdx) = some dct := by
        rw [replied.dicts, replied.dbIdx]
        exact found
      have stored : fkDictGet middle.items.content.eop dct key = some id := by
        rw [same]
        exact got
      have nodeIs : ∀ slot ∈ [node], middle.items.content.IsStr slot := fun slot only => by
        rw [List.mem_singleton.mp only, same]
        exact strs node inside
      obtain ⟨items, final, set, put, emptied⟩ :=
        replied.mirrors.setEntity (.list (cutNode pos nodes)) [] [node] there member stored
          unchanged rfl (.inl rfl) cut typed nodeIs
      obtain ⟨last, released, mirror, shrinks⟩ := emptied.mirror.decRef
      have result : Mirrors scene { middle with items := last } final [] ∅ :=
        emptied.withItems mirror fun arg _ is =>
          Shrinks.of_live shrinks is.live
      dsimp only [Entity.value] at put
      rw [same, ← cutNode_spoken] at put
      exact .left_first set (.of_ok (onItems_eq released) put result)

theorem fkCmdLlen_mimics (mirrors : Mirrors scene svr work [] ∅) (spoken : Spoken scene said)
    (enough : 1 < scene.args.length) :
    Mimics scene (fkCmdLlen scene.client scene.args) (Freekick.fkCmdLlen said) svr work := by
  obtain ⟨key, member, isKey, saysKey⟩ := spoken.get enough
  refine .left_first (isKey svr) (.right_first (saysKey work) ?_)
  refine Mimics.typed mirrors member
    (fun dct casts found absent still => reply_mimics (Rsp.replying (.int 0)) still)
    (fun content entity notList => ?_) fun dct casts id entity found got there still => ?_
  · cases entity with
    | list nodes => exact (notList rfl).elim
    | _ => rfl
  · obtain ⟨nodes, rfl, strs⟩ := isList_of_type still.mirror.ok there
    refine Mimics.look still (rawList_reads still.mirror.ok there) fun casts still => ?_
    dsimp only [Entity.value]
    rw [List.length_map]
    exact reply_mimics (Rsp.replying (.int _)) still

/-! ## `fk_svr_hash.c` -/

/-- A field that is put with `fk_dict_add`; the references that it takes are not in a slot yet. -/
theorem Mirrors.dictAdd {fields : FkDict Nat Nat} (mirrors : Mirrors scene svr work [] ∅)
    (wf : fields.Wf svr.items.content.eop)
    (strs : ∀ elt ∈ fields.elements, svr.items.content.IsStr elt.1 ∧ svr.items.content.IsStr elt.2)
    (member : key ∈ scene.args) (inside : value ∈ scene.args) :
    ∃ added items casts taken, dictAdd fields key value svr = .ok added
      { svr with items := items, casts := casts } ∧ items.content = svr.items.content ∧
      Mirrors scene { svr with items := items, casts := casts } work taken ∅ ∧
      items.content.Typed (.dict added.2) ∧
      (∀ slot, (dictSlots added.2).count slot = (dictSlots fields).count slot + taken.count slot) ∧
      (Entity.dict added.2).value items.content = .dict (fkDictAdd dbDictEop
        (fields.image svr.items.content.strOf svr.items.content.strOf) (scene.text key)
        (scene.text value)).2 := by
  obtain ⟨keyIs, keyText⟩ := mirrors.arg member
  obtain ⟨valueIs, valueText⟩ := mirrors.arg inside
  have keys : ∀ elt ∈ fields.elements, svr.items.content.IsStr elt.1 :=
    fun elt stored => (strs elt stored).1
  rw [← keyText, ← valueText, fkDictAdd_image svr.items.content.through]
  by_cases absent : fkDictGet svr.items.content.eop fields key = none
  · obtain ⟨items, casts, added, called, same, addedWf, perm, ok⟩ :=
      dictAdd_absent mirrors.mirror.ok wf keys keyIs valueIs.live absent
    have made : added = (fkDictAdd svr.items.content.eop fields key value).2 :=
      congrArg Prod.snd (dictAdd_left called).1
    rw [Set.empty_sdiff, Set.empty_sdiff] at ok
    have mirror : Mirror { svr with items := items, casts := casts } work.svr [value, key] ∅ := by
      refine (mirrors.mirror.withCasts casts).withItems ok (fun id owned => ?_) fun _ _ _ =>
        by rw [same]
      change items.content.Owned id at owned
      rw [same] at owned
      have once := mirrors.mirror.sole id owned
      have none : [value, key].count id = 0 := List.count_eq_zero.mpr fun either => by
        rcases List.mem_cons.mp either with rfl | only
        · exact valueIs.not_owned owned
        · exact (List.mem_singleton.mp only ▸ keyIs).not_owned owned
      unfold plus at once ⊢
      rw [none]
      exact once
    refine ⟨_, items, casts, [value, key], called, same,
      (mirrors.withCasts casts).withItems mirror fun _ _ _ => by rw [same], ?_, fun slot => ?_, ?_⟩
    · rw [same]
      refine typed_dict addedWf perm fun elt stored => ?_
      rcases List.mem_cons.mp stored with rfl | old
      · exact ⟨keyIs, valueIs⟩
      · exact strs elt old
    · rw [count_dictSlots perm, count_slotsOf, count_dictSlots (List.Perm.refl fields.elements)]
      simp only [List.count_cons, List.count_nil]
      omega
    · rw [same, ← made]
      rfl
  · obtain ⟨casts, kept, called, keptWf, perm, _, ok⟩ :=
      @dictAdd_present _ _ _ _ _ _ value mirrors.mirror.ok wf keys keyIs absent
    have made : kept = (fkDictAdd svr.items.content.eop fields key value).2 :=
      congrArg Prod.snd (dictAdd_left called).1
    refine ⟨_, svr.items, casts, [], called, rfl, mirrors.withCasts casts,
      typed_dict keptWf perm strs, fun slot => ?_, ?_⟩
    · exact (count_dictSlots perm slot).trans
        (count_dictSlots (List.Perm.refl fields.elements) slot).symm
    · rw [← made]
      rfl

theorem fkCmdHset_mimics (mirrors : Mirrors scene svr work [] ∅) (spoken : Spoken scene said)
    (enough : 3 < scene.args.length) :
    Mimics scene (fkCmdHset scene.client scene.args) (Freekick.fkCmdHset said) svr work := by
  obtain ⟨hkey, member, isHkey, saysHkey⟩ := spoken.get (show 0 + 1 < scene.args.length by omega)
  obtain ⟨key, inside, isKey, saysKey⟩ := spoken.get (show 1 + 1 < scene.args.length by omega)
  obtain ⟨value, valueInside, isValue, saysValue⟩ :=
    spoken.get (show 2 + 1 < scene.args.length from enough)
  refine .left_first (isHkey svr) (.left_first (isKey svr) ?_)
  refine .right_first (saysHkey work)
    (.right_first (saysKey work) (.right_first (saysValue work) ?_))
  refine Mimics.typed mirrors member (fun dct casts found absent still => ?_)
    (fun content entity notDict => ?_) fun dct casts id entity found got there still => ?_
  · have nothing : (fkDictCreate : FkDict Nat Nat).elements = [] := fkDictInit_elements
    obtain ⟨added, items, more, taken, called, same, kept, typed, slots, result⟩ :=
      still.dictAdd fkDictInit_wf
        (fun elt stored => by
          rw [fkDictInit_elements] at stored
          cases stored) inside valueInside
    have perm : taken.Perm (dictSlots added.2) := List.perm_iff_count.mpr fun slot => by
      rw [slots, count_dictSlots (List.Perm.refl _), fkDictInit_elements]
      exact (Nat.zero_add _).symm
    have begun : Mirrors scene { svr with items := items, casts := more } work
        (Entity.dict added.2).slots ∅ := kept.perm perm
    have none : fkDictGet items.content.eop dct hkey = .none := by
      rw [same]
      exact absent
    obtain ⟨item, middle, after, final, created, low, high, last⟩ :=
      begun.store found member none typed (.inr rfl)
    dsimp only at high
    rw [result] at high
    rw [fkDictInit_image] at high
    refine .left_first (isValue _)
      (.left_first called (.left_first created (.left_first low (.right_first high ?_))))
    exact reply_mimics (Rsp.replying (.int 1)) last
  · cases entity with
    | dict fields => exact (notDict rfl).elim
    | _ => rfl
  · obtain ⟨fields, rfl, wf, strs⟩ := isDict_of_type still.mirror.ok there
    refine Mimics.look still (rawDict_reads still.mirror.ok there) fun casts still => ?_
    obtain ⟨added, items, more, taken, called, same, kept, typed, slots, result⟩ :=
      still.dictAdd wf strs inside valueInside
    have unchanged : items.content id = some (.dict, .dict fields) := by
      rw [same]
      exact there
    have stored : fkDictGet items.content.eop dct hkey = some id := by
      rw [same]
      exact got
    rw [← List.append_nil taken] at kept
    obtain ⟨last, final, set, put, kept⟩ :=
      kept.setEntity (.dict added.2) taken [] found member stored unchanged rfl (.inr rfl)
        slots typed nofun
    dsimp only at put
    rw [result] at put
    refine .left_first (isValue _) (.left_first called (.left_first set (.right_first put ?_)))
    exact reply_mimics (Rsp.replying (.int 1)) kept

theorem fkCmdHget_mimics (mirrors : Mirrors scene svr work [] ∅) (spoken : Spoken scene said)
    (enough : 2 < scene.args.length) :
    Mimics scene (fkCmdHget scene.client scene.args) (Freekick.fkCmdHget said) svr work := by
  obtain ⟨hkey, member, isHkey, saysHkey⟩ := spoken.get (Nat.lt_of_succ_lt enough)
  obtain ⟨key, inside, isKey, saysKey⟩ := spoken.get enough
  refine .left_first (isHkey svr)
    (.left_first (isKey svr) (.right_first (saysHkey work) (.right_first (saysKey work) ?_)))
  refine Mimics.typed mirrors member
    (fun dct casts found absent still => reply_mimics (Rsp.replying (.bulk fkRspNil)) still)
    (fun content entity notDict => ?_) fun dct casts id entity found got there still => ?_
  · cases entity with
    | dict fields => exact (notDict rfl).elim
    | _ => rfl
  · obtain ⟨fields, rfl, wf, strs⟩ := isDict_of_type still.mirror.ok there
    obtain ⟨keyIs, keyText⟩ := mirrors.arg inside
    refine Mimics.look still (rawDict_reads still.mirror.ok there) fun casts still => ?_
    refine Mimics.look still (dictGet_reads still.mirror.ok keyIs fun elt stored =>
      (strs elt stored).1) fun casts still => ?_
    have image : fkDictGet dbDictEop (fields.image svr.items.content.strOf svr.items.content.strOf)
        (svr.items.content.strOf key) = (fkDictGet svr.items.content.eop fields key).map
          svr.items.content.strOf :=
      fkDictGet_image svr.items.content.through fields key
    rw [keyText] at image
    dsimp only [Entity.value]
    rw [image]
    cases field : fkDictGet svr.items.content.eop fields key with
    | none => exact reply_mimics (Rsp.replying (.bulk fkRspNil)) still
    | some value =>
        obtain ⟨stored, held, same⟩ :=
          (wf.represents svr.items.content.eop_lawful key value).mp field
        have is : svr.items.content.IsStr value := (strs _ held).2
        obtain ⟨item, looked, isType, _⟩ :=
          @itemAt_eq { svr with casts := casts } value _ _ is.strOf
        refine Tandem.left_first looked ?_
        rw [isType]
        exact replyStr_mimics still is

/-! ## `fk_svr_zset.c` -/

theorem fkCmdZadd_mimics (mirrors : Mirrors scene svr work [] ∅) (spoken : Spoken scene said)
    (enough : 1 < scene.args.length) :
    Mimics scene (fkCmdZadd scene.client scene.args) (Freekick.fkCmdZadd said) svr work := by
  obtain ⟨key, member, isKey, saysKey⟩ := spoken.get enough
  obtain ⟨dct, found, reads, got⟩ := mirrors.get member
  refine .left_first (isKey svr)
    (.left_first mirrors.db.1 (Mimics.look mirrors reads fun casts still => ?_))
  refine .right_first (saysKey work) (.right_first got ?_)
  cases value : fkDictGet svr.items.content.eop dct key with
  | none => exact .lost rfl
  | some item =>
      obtain ⟨_, _, there⟩ := content_of_live
        (Content.IsValue.live (mirrors.mirror.ok.belongs found value))
      obtain ⟨stored, isStored⟩ := find_of_content (by rw [there]; rfl)
      have taken : raw .sklist item { svr with casts := casts } =
          .ok stored.entity { svr with casts := (stored.type, .sklist) :: casts } := by
        unfold raw
        rw [isStored]
      have wrong := still.withCasts ((stored.type, .sklist) :: casts)
      refine .left_first taken ?_
      dsimp only [Option.map_some]
      rw [spoken.length]
      split
      · exact reply_mimics (Rsp.replying (.error fkRspArgcErr)) wrong
      · have looked : Reads False [] ∅
            (Act.forEach (fun pair => lookStr pair.1) (pairs (scene.args.drop 2)))
            { svr with casts := (stored.type, .sklist) :: casts } () :=
          forEach_reads wrong.mirror.ok fun pair inside _ still =>
            lookStr_reads still (mirrors.arg (List.mem_of_mem_drop (pairs_mem inside).1)).1
        exact Mimics.look wrong looked fun _ still => reply_mimics (Rsp.replying (.int _)) still

end Freekick.Refs
