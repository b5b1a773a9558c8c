import Freekick.Lib.Tandem
import Freekick.Refs.Changes
import Freekick.Store.Reply

/-!
# Requests on items and on values

While a handler runs on items, the same handler runs on values: the arguments stand for the
bytes of the request, and the rest of the connections stays.  Both end alike.
-/

namespace Freekick.Refs

open Lib Lib.Call FkItems

/-- The client of a request with its arguments, what the arguments that are held stand for, and
the other connections. -/
structure Scene where
  client : Nat
  args : List Nat
  argParsed : Nat
  text : Nat → Bytes
  rest : Nat → Option FkConn

structure Mirrors (scene : Scene) (svr : FkSvr) (work : Work) (extra : List Nat)
    (fresh : Set Nat) : Prop where
  mirror : Mirror svr work.svr extra fresh
  conn : ∃ conn, svr.conns.find scene.client = some conn ∧ conn.args = scene.args ∧
    conn.argParsed = scene.argParsed ∧ conn.out = work.out
  rest : ∀ other, other ≠ scene.client → svr.conns.find other = scene.rest other
  text : ∀ client conn, svr.conns.find client = some conn →
    ∀ arg ∈ conn.args, svr.items.content.strOf arg = scene.text arg

/-- The handlers end alike; where the one on values is undefined, the one on items crashes. -/
def Mimics (scene : Scene) (low : Act FkSvr Unit) (high : Act Work Unit) (svr : FkSvr)
    (work : Work) : Prop :=
  Tandem (fun _ _ after final => Mirrors scene after final [] ∅)
    (fun after final => Mirrors scene after final [] ∅)
    (fun after => after.crashed = true) (low svr) (high work)

/-- The arguments of the handler on values; the name is not looked at. -/
structure Spoken (scene : Scene) (said : List Bytes) : Prop where
  length : said.length = scene.args.length
  tail : said.tail = scene.args.tail.map scene.text

variable {scene : Scene} {svr after : FkSvr} {work : Work} {plain : Freekick.FkSvr}
  {extra extra' : List Nat} {fresh fresh' : Set Nat} {key : Nat} {said : List Bytes}

theorem connOf_eq {client : Nat} {conn : FkConn} (found : svr.conns.find client = some conn) :
    connOf client svr = .ok conn svr := by
  unfold connOf
  rw [found]

theorem Mirror.withCasts (mirror : Mirror svr plain extra fresh)
    (casts : List (FkItemType × FkItemType)) :
    Mirror { svr with casts := casts } plain extra fresh := by
  obtain ⟨ok, sole, ⟨dbcnt, savePid, clock, readings, junk, dicts⟩, alive⟩ := mirror
  exact ⟨ok.withCasts False.elim, sole, ⟨dbcnt, savePid, clock, readings, junk, dicts⟩, alive⟩

theorem Mirror.withReadings (mirror : Mirror svr plain extra fresh) :
    Mirror { svr with readings := svr.readings + 1 } { plain with readings := plain.readings + 1 }
      extra fresh := by
  obtain ⟨ok, sole, ⟨dbcnt, savePid, clock, readings, junk, dicts⟩, alive⟩ := mirror
  exact ⟨ok.withReadings _, sole, ⟨dbcnt, savePid, clock, congrArg (· + 1) readings, junk, dicts⟩,
    alive⟩

/-- Other connections, when the counts are exact with them. -/
theorem Mirror.withConns {conns : Objects Nat FkConn} (mirror : Mirror svr plain extra fresh)
    (ok : Ok False { svr with conns := conns } extra' fresh') : Mirror
    { svr with conns := conns } plain extra' fresh' := by
  obtain ⟨dbcnt, savePid, clock, readings, junk, dicts⟩ := mirror.alike
  refine ⟨ok, fun id owned => ?_, ⟨dbcnt, savePid, clock, readings, junk, dicts⟩, mirror.alive⟩
  have once := mirror.sole id owned
  have before := mirror.ok.exact.refs id
  have now := ok.exact.refs id
  dsimp only at now
  omega

namespace Mirrors

theorem serves (mirrors : Mirrors scene svr work extra fresh) :
    Serves False scene.client scene.args svr extra fresh := by
  obtain ⟨conn, found, args, _⟩ := mirrors.conn
  exact ⟨mirrors.mirror.ok, conn, found, args⟩

theorem arg {arg : Nat} (mirrors : Mirrors scene svr work extra fresh) (member : arg ∈ scene.args) :
    svr.items.content.IsStr arg ∧ svr.items.content.strOf arg = scene.text arg := by
  obtain ⟨conn, found, args, _⟩ := mirrors.conn
  exact ⟨(mirrors.serves.arg member).1, mirrors.text scene.client conn found arg (args ▸ member)⟩

theorem db (mirrors : Mirrors scene svr work extra fresh) :
    dbOf scene.client svr = .ok (false, work.out.dbIdx) svr ∧ work.out.dbIdx < svr.dbcnt := by
  obtain ⟨conn, found, _, _, out⟩ := mirrors.conn
  rw [← out]
  exact ⟨(Act.bind_ok (connOf_eq found)).trans rfl, mirrors.mirror.ok.dbIdx scene.client conn found⟩

/-- The dictionary of the selected database. -/
theorem dict (mirrors : Mirrors scene svr work extra fresh) (isexp : Bool) :
    ∃ dct, svr.dicts.find (isexp, work.out.dbIdx) = some dct ∧
      work.svr.dict isexp work.out.dbIdx = svr.items.content.dictOf dct := by
  obtain ⟨dct, found⟩ := mirrors.mirror.ok.there isexp work.out.dbIdx mirrors.db.2
  exact ⟨dct, found, mirrors.mirror.alike.dicts isexp _ dct found⟩

/-- Strings that a request holds stay. -/
theorem withItems {items : FkItems} (mirrors : Mirrors scene svr work extra fresh)
    (mirror : Mirror { svr with items := items } plain extra' fresh')
    (str : ∀ id, svr.items.content.IsStr id → items.content.IsStr id →
      items.content id = svr.items.content id) :
    Mirrors scene { svr with items := items } { work with svr := plain } extra' fresh' := by
  refine ⟨mirror, mirrors.conn, mirrors.rest, fun client conn found arg member => ?_⟩
  rw [← mirrors.text client conn found arg member]
  exact Content.strOf_congr (str arg (mirrors.mirror.ok.args client conn found arg member)
    (mirror.ok.args client conn found arg member))

theorem withCasts (mirrors : Mirrors scene svr work extra fresh)
    (casts : List (FkItemType × FkItemType)) :
    Mirrors scene { svr with casts := casts } work extra fresh :=
  ⟨mirrors.mirror.withCasts casts, mirrors.conn, mirrors.rest, mirrors.text⟩

theorem perm {other : List Nat} (mirrors : Mirrors scene svr work extra fresh)
    (perm : extra.Perm other) :
    Mirrors scene svr work other fresh :=
  ⟨mirrors.mirror.perm perm, mirrors.conn, mirrors.rest, mirrors.text⟩

/-- After an operation on a database. -/
theorem of_rest (mirrors : Mirrors scene svr work extra fresh) (rest : Rest svr after)
    (mirror : Mirror after plain extra' fresh') :
    Mirrors scene after { work with svr := plain } extra' fresh' := by
  refine ⟨mirror, ?_, ?_, fun client conn found arg member => ?_⟩
  · rw [rest.conns]
    exact mirrors.conn
  · rw [rest.conns]
    exact mirrors.rest
  · have live := (mirror.ok.args client conn found arg member).live
    rw [rest.conns] at found
    rw [Content.strOf_congr (Shrinks.of_live rest.items live)]
    exact mirrors.text client conn found arg member

theorem withReadings (mirrors : Mirrors scene svr work extra fresh) :
    Mirrors scene { svr with readings := svr.readings + 1 }
      { work with svr := { work.svr with readings := work.svr.readings + 1 } } extra fresh :=
  ⟨mirrors.mirror.withReadings, mirrors.conn, mirrors.rest, mirrors.text⟩

end Mirrors

namespace Spoken

theorem get (spoken : Spoken scene said) {index : Nat} (inside : index + 1 < scene.args.length) :
    ∃ arg ∈ scene.args, (∀ svr, getArg scene.args (index + 1) svr = .ok arg svr) ∧
      ∀ work, fkConnGetArg said (index + 1) work = .ok (scene.text arg) work := by
  obtain ⟨arg, isArg, member, there⟩ := getArg_ok inside
  refine ⟨arg, member, isArg, fun work => ?_⟩
  have known : said[index + 1]? = some (scene.text arg) := by
    rw [← List.getElem?_tail] at there ⊢
    rw [spoken.tail, List.getElem?_map, there]
    rfl
  unfold fkConnGetArg
  rw [known]
  rfl

theorem drop (spoken : Spoken scene said) (count : Nat) :
    said.drop (count + 1) = (scene.args.drop (count + 1)).map scene.text := by
  rw [← List.drop_tail, ← List.drop_tail, spoken.tail, List.map_drop]

end Spoken

/-! ## Rules -/

namespace Mimics

variable {A B : Type} {low : Act FkSvr Unit} {high : Act Work Unit}

/-- After a look at items. -/
theorem look {act : Act FkSvr A} {next : A → Act FkSvr Unit} {value : A}
    (mirrors : Mirrors scene svr work extra fresh) (reads : Reads False extra fresh act svr value)
    (later : ∀ casts, Mirrors scene { svr with casts := casts } work extra fresh →
      Mimics scene (next value) high { svr with casts := casts } work) :
      Mimics scene (act >>= next) high svr work := by
  obtain ⟨casts, called, _⟩ := reads
  exact Tandem.left_first called (later casts (mirrors.withCasts casts))

end Mimics

/-! ## Replies -/

/-- A reply looks at the write buffer and changes nothing else. -/
def Replying (add : Act Work Unit) : Prop :=
  ∃ queue : (Nat → UInt8) → Act FkBuf Unit, ∀ work,
    add work = (queue work.svr.junk work.out.wbuf).within work.withWbuf

theorem Rsp.replying (rsp : Rsp) : Replying rsp.send := ⟨fun junk => rsp.queue junk, rsp.send_apply⟩

theorem addBulkAndContent_replying (bytes : Bytes) : Replying (addBulkAndContent bytes) := by
  refine ⟨fun junk => queueAll junk (bulkCalls (some bytes)), fun work => ?_⟩
  rw [← sendAll_bulk]
  exact sendAll_apply _ work

/-- Another state of the connection, with the arguments of the request. -/
theorem Mirrors.withOut (mirrors : Mirrors scene svr work extra fresh) {conn : FkConn}
    (found : svr.conns.find scene.client = some conn)
    (out : FkConnOut) (dbIdx : out.dbIdx < svr.dbcnt) :
    Mirrors scene { svr with conns := svr.conns.put scene.client { conn with out := out } }
      { work with out := out } extra fresh := by
  have ok := mirrors.mirror.ok
  obtain ⟨held, isHeld, args, parsed, _⟩ := mirrors.conn
  rw [found] at isHeld
  cases isHeld
  have same := congrArg (Option.elim · [] FkConn.args) found
  refine ⟨mirrors.mirror.withConns
    (ok.withConn same (ok.args _ conn found) (ok.names _ conn found) dbIdx fun _ => rfl),
    ⟨_, Function.update_self .., args, parsed, rfl⟩, fun other apart => ?_,
    fun client other there arg member => ?_⟩
  · exact (Function.update_of_ne apart ..).trans (mirrors.rest other apart)
  · change Function.update svr.conns.find scene.client _ client = some other at there
    by_cases here : client = scene.client
    · rw [here, Function.update_self] at there
      cases there
      exact mirrors.text _ conn found arg member
    · rw [Function.update_of_ne here] at there
      exact mirrors.text client other there arg member

/-- After a reply, which leaves the databases alone. -/
structure Replied (scene : Scene) (svr : FkSvr) (work : Work) (after : FkSvr)
    (final : Work) : Prop where
  mirrors : Mirrors scene after final [] ∅
  items : after.items = svr.items
  dicts : after.dicts = svr.dicts
  dbIdx : final.out.dbIdx = work.out.dbIdx

theorem reply_tandem {add : Act Work Unit} (replying : Replying add)
    (mirrors : Mirrors scene svr work [] ∅) :
    Tandem (fun _ _ => Replied scene svr work) (fun after final => Mirrors scene after final [] ∅)
      (fun after => after.crashed = true) (reply scene.client add svr) (add work) := by
  obtain ⟨queue, adds⟩ := replying
  obtain ⟨conn, found, _, _, out⟩ := mirrors.conn
  have junk : work.svr.junk = svr.junk := mirrors.mirror.alike.junk
  have written : ∀ wbuf, Mirrors scene
      { svr with
        conns := svr.conns.put scene.client { conn with out := { conn.out with wbuf := wbuf } } }
      (work.withWbuf wbuf) [] ∅ := fun wbuf => by
    rw [Work.withWbuf, ← out]
    exact mirrors.withOut found _ (mirrors.mirror.ok.dbIdx _ conn found)
  have low : add ⟨Freekick.fkSvrInit svr.dbcnt svr.blogOn svr.clock svr.junk, conn.out⟩ =
      (queue svr.junk conn.out.wbuf).within (Work.withWbuf _) := adds _
  have high := adds work
  rw [junk, ← out] at high
  refine Tandem.left_first (connOf_eq found) (Tandem.left_first rfl ?_)
  dsimp only [id]
  rw [low, high]
  cases queue svr.junk conn.out.wbuf with
  | ok _ wbuf => exact .ok ⟨written wbuf, rfl, rfl, rfl⟩
  | err wbuf => exact .err (written wbuf)
  | fault => exact .lost rfl

theorem reply_mimics {add : Act Work Unit} (replying : Replying add)
    (mirrors : Mirrors scene svr work [] ∅) :
    Mimics scene (reply scene.client add) add svr work :=
  (reply_tandem replying mirrors).imp (fun _ _ _ _ replied => replied.mirrors) fun _ _ => id

end Freekick.Refs
