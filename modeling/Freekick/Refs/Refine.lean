import Freekick.Refs.Commands
import Freekick.Refs.Runs
import Freekick.Store.Sweep

/-!
# The server with items refines the server with values

Databases, lists, hashes and requests share items.  No client can notice: whatever happens,
every reply and every database is what a server would have that copies values.
-/

namespace Freekick.Refs

open Lib Lib.Call FkItems

/-! ## The server with values -/

/-- The arguments of a request that have come, and how many it has. -/
structure FkRequest where
  args : List Bytes
  argParsed : Nat

/-- Databases and clients without items, and the requests that have begun. -/
structure FkValues where
  sys : FkSystem
  requests : Nat → FkRequest

namespace FkValues

def setRequest (values : FkValues) (client : Nat) (request : FkRequest) : FkValues :=
  { values with requests := Function.update values.requests client request }

def withSys (values : FkValues) (sys : FkSystem) : FkValues := { values with sys := sys }

/-- What happens at a client that is connected, or at one that is not. -/
def atConn (values : FkValues) (client : Nat) (absent present : Option FkValues) :
    Option FkValues :=
  if (values.sys.conns client).isSome then present else absent

section Steps

variable (fkCmdEval : Freekick.Handler) (maxWbuf : Nat)

/-- The last argument runs the request. -/
def parseArg (values : FkValues) (client : Nat) (bytes : Bytes) : Option FkValues :=
  let before := values.requests client
  if before.args.length + 1 = before.argParsed then
    (values.sys.command fkCmdEval client (before.args ++ [bytes])).map fun sys =>
      (values.withSys sys).setRequest client ⟨[], 0⟩
  else some (values.setRequest client ⟨before.args ++ [bytes], before.argParsed⟩)

/-- One event; `none` is a crash. -/
def step (values : FkValues) : Event → Option FkValues
  | .connect client =>
      values.atConn client
        ((values.sys.step fkCmdEval maxWbuf (.connect client)).map fun sys =>
          (values.withSys sys).setRequest client ⟨[], 0⟩)
        (some values)
  | .header client argParsed =>
      values.atConn client (some values)
        (if (values.requests client).argParsed = 0 then
          some (values.setRequest client ⟨(values.requests client).args, argParsed⟩)
        else some values)
  | .name client bytes =>
      values.atConn client (some values)
        (if (values.requests client).argParsed ≠ 0 ∧ (values.requests client).args = [] then
          values.parseArg fkCmdEval client bytes
        else some values)
  | .arg client bytes =>
      values.atConn client (some values)
        (if (values.requests client).argParsed ≠ 0 ∧ (values.requests client).args ≠ [] then
          values.parseArg fkCmdEval client bytes
        else some values)
  | .sent client count =>
      values.atConn client (some values)
        ((values.sys.step fkCmdEval maxWbuf (.sent client count)).map values.withSys)
  | .close client =>
      values.atConn client (some values)
        ((values.sys.step fkCmdEval maxWbuf (.close client)).map values.withSys)
  | .sample idx number =>
      if idx < values.sys.svr.dbcnt then
        (Freekick.sampleOne idx number values.sys.svr).map fun svr => values.withSys
        { values.sys with svr := svr }
      else some values
  | .dump => some values

end Steps

end FkValues

/-- Empty databases and no client. -/
def fkValuesInit (dbcnt : Nat) (blogOn : Bool) (clock : Nat → Int)
    (junk : Nat → UInt8) : FkValues :=
  ⟨fkSystemInit dbcnt blogOn clock junk, fun _ => ⟨[], 0⟩⟩

/-- The server with items stands for the server with values. -/
structure ReadsAs (svr : FkSvr) (values : FkValues) : Prop where
  mirror : Mirror svr values.sys.svr [] ∅
  conns : ∀ client, values.sys.conns client = (svr.conns.find client).map FkConn.out
  requests : ∀ client conn, svr.conns.find client = some conn →
    values.requests client = ⟨conn.args.map svr.items.content.strOf, conn.argParsed⟩

variable {scene : Scene} {svr after : FkSvr} {work : Work} {plain : Freekick.FkSvr}
  {values final : FkValues} {client : Nat} {conn : FkConn} {fkCmdEval : Handler}
  {eval : Freekick.Handler} {said : List Bytes}

/-! ## The command table -/

/-- The table is the same whatever `EVAL` does. -/
theorem protos_change {first second : Freekick.Handler} {pto : FkProto}
    (member : pto ∈ protos first) :
    ∃ other ∈ protos second, other.name = pto.name ∧ other.argCnt = pto.argCnt := by
  have same : (protos first).map (fun pto => (pto.name, pto.argCnt)) =
      (protos second).map fun pto => (pto.name, pto.argCnt) := rfl
  have inside : (pto.name, pto.argCnt) ∈ (protos first).map fun pto => (pto.name, pto.argCnt) :=
    List.mem_map.mpr ⟨pto, member, rfl⟩
  rw [same] at inside
  obtain ⟨other, there, equal⟩ := List.mem_map.mp inside
  obtain ⟨name, argCnt⟩ := Prod.mk.inj equal
  exact ⟨other, there, name, argCnt⟩

theorem protoOf_none {name : Bytes} (unknown : protoOf name = none) :
    fkProtoSearch eval name = none := by
  cases found : fkProtoSearch eval name with
  | none => rfl
  | some pto =>
      obtain ⟨member, named⟩ := (fkProtoSearch_eq_some eval).mp found
      obtain ⟨other, there, same, _⟩ := @protos_change eval (fun _ => Act.fault) pto member
      exact absurd (same.trans named) (fkProtoSearch_eq_none _ unknown other there)

theorem protoOf_some {name : Bytes} {pto : FkProto} (known : protoOf name = some pto) :
    ∃ other ∈ protos eval, fkProtoSearch eval name = some other ∧ other.name = pto.name ∧
      other.name = name ∧ ∀ count, other.accepts count = pto.accepts count := by
  obtain ⟨member, named⟩ := (fkProtoSearch_eq_some _).mp known
  obtain ⟨other, there, same, argCnt⟩ := @protos_change _ eval pto member
  refine ⟨other, there, (fkProtoSearch_eq_some eval).mpr ⟨there, same.trans named⟩, same,
    same.trans named, fun count => ?_⟩
  unfold FkProto.accepts
  rw [argCnt]

theorem procArgs_unknown {first : Bytes} {rest : List Bytes}
    (unknown : fkProtoSearch eval (fkStr2upper first) = none) :
    procArgs eval (first :: rest) = fkConnAddErrorRsp (ascii "Invalid Protocol") := by
  unfold procArgs
  dsimp only
  rw [unknown]

theorem procArgs_known {first : Bytes} {rest : List Bytes} {pto : FkProto}
    (known : fkProtoSearch eval (fkStr2upper first) = some pto) :
    procArgs eval (first :: rest) =
      if pto.accepts (rest.length + 1) = true then
        pto.handler (fkStr2upper first :: rest) >>= fun _ =>
          blogAppend pto (fkStr2upper first :: rest)
      else fkConnAddErrorRsp (ascii "Wrong Argument Number") := by
  unfold procArgs
  dsimp only
  rw [known]
  rfl

/-- A handler on items and the handler of the table on values. -/
theorem handlerOf_mimics {pto : FkProto} (member : pto ∈ protos eval)
    (notEval : pto.name ≠ ascii "EVAL") (counted : pto.accepts scene.args.length = true)
    (mirrors : Mirrors scene svr work [] ∅) (spoken : Spoken scene said) :
    Mimics scene (handlerOf fkCmdEval pto.name scene.client scene.args)
      (pto.handler said) svr work := by
  have enough := accepts_natAbs counted
  cases pto, member using protos_cases with
  | set => exact fkCmdSet_mimics mirrors spoken enough
  | setnx => exact fkCmdSetnx_mimics mirrors spoken enough
  | setex => exact fkCmdSetex_mimics mirrors spoken enough
  | mset => exact fkCmdMset_mimics mirrors spoken
  | mget => exact fkCmdMget_mimics mirrors spoken
  | get => exact fkCmdGet_mimics mirrors spoken enough
  | del => exact fkCmdDel_mimics mirrors spoken
  | flushdb => exact @fkCmdFlushdb_mimics scene svr work said mirrors
  | existing => exact fkCmdExists_mimics mirrors spoken enough
  | flushall => exact @fkCmdFlushall_mimics scene svr work said mirrors
  | hset => exact fkCmdHset_mimics mirrors spoken enough
  | hget => exact fkCmdHget_mimics mirrors spoken enough
  | lpush => exact fkCmdGenericPush_mimics .head mirrors spoken (Nat.le_of_succ_le enough)
  | rpush => exact fkCmdGenericPush_mimics .tail mirrors spoken (Nat.le_of_succ_le enough)
  | lpop => exact fkCmdGenericPop_mimics .head mirrors spoken enough
  | rpop => exact fkCmdGenericPop_mimics .tail mirrors spoken enough
  | llen => exact fkCmdLlen_mimics mirrors spoken enough
  | save => exact @fkCmdSave_mimics scene svr work said mirrors
  | select => exact fkCmdSelect_mimics mirrors spoken enough
  | eval => exact (notEval rfl).elim
  | zadd => exact fkCmdZadd_mimics mirrors spoken (Nat.le_trans (by decide) enough)

/-! ## Requests -/

/-- The client has no request any more. -/
def Scene.freed (scene : Scene) : Scene := { scene with args := [], argParsed := 0 }

theorem fkConnFreeArgs_mirrors (mirrors : Mirrors scene svr work [] ∅) :
    ∃ after, fkConnFreeArgs scene.client svr = .ok () after ∧
      Mirrors scene.freed after work [] ∅ := by
  obtain ⟨conn, found, args, parsed, out⟩ := mirrors.conn
  have ok := mirrors.mirror.ok
  have cleared : Ok False
      { svr with conns := svr.conns.put scene.client { conn with args := [], argParsed := 0 } }
      (conn.args ++ []) ∅ := by
    refine ok.withConn (weight_eq found) nofun (by rintro _ ⟨⟩) (ok.dbIdx _ conn found) fun id => ?_
    rw [List.append_nil]
    exact Nat.add_comm _ _
  obtain ⟨items, released, last, shrinks⟩ := decRefs_ok cleared
  have mirror := (mirrors.mirror.withConns cleared).shrink last shrinks fun _ => Nat.zero_le _
  refine ⟨_, (Act.bind_ok (connOf_eq found)).trans ((Act.bind_ok rfl).trans (onItems_eq released)),
    mirror, ⟨_, Function.update_self .., rfl, rfl, out⟩, fun other apart => ?_,
    fun client other there arg member => ?_⟩
  · exact (Function.update_of_ne apart ..).trans (mirrors.rest other apart)
  · have live := (last.args client other there arg member).live
    change Function.update svr.conns.find scene.client _ client = some other at there
    by_cases here : client = scene.client
    · rw [here, Function.update_self] at there
      cases there
      cases member
    · rw [Function.update_of_ne here] at there
      rw [Content.strOf_congr (Shrinks.of_live shrinks live)]
      exact mirrors.text client other there arg member

/-- The log is not looked at again. -/
theorem fkBlogAppend_mirrors {pto other : FkProto} (mirrors : Mirrors scene svr work [] ∅) :
    ∃ after final, fkBlogAppend scene.client pto scene.args svr = .ok () after ∧
      blogAppend other said work = .ok () final ∧ Mirrors scene after final [] ∅ := by
  obtain ⟨casts, called, _⟩ := @fkBlogAppend_reads _ _ _ _ pto mirrors.serves
  obtain ⟨⟨ok, sole, ⟨dbcnt, savePid, clock, readings, junk, dicts⟩, alive⟩, conn, rest, text⟩ :=
    mirrors.withCasts casts
  refine ⟨_, _, called, rfl, ?_⟩
  dsimp only
  split
  · exact ⟨⟨ok, sole, ⟨dbcnt, savePid, clock, readings, junk, dicts⟩, alive⟩, conn, rest, text⟩
  · exact ⟨⟨ok, sole, ⟨dbcnt, savePid, clock, readings, junk, dicts⟩, alive⟩, conn, rest, text⟩

/-- A request that is complete. -/
theorem fkConnProcCmd_mimics {first : Nat} {rest : List Nat} (mirrors : Mirrors scene svr work [] ∅)
    (begins : scene.args = first :: rest) :
    Tandem (fun _ _ after final => Mirrors scene.freed after final [] ∅)
      (fun after final => ∃ args argParsed,
        Mirrors { scene with args := args, argParsed := argParsed } after final [] ∅)
      (fun after => after.crashed = true) (fkConnProcCmd fkCmdEval scene.client svr)
      (procArgs eval (scene.args.map scene.text) work) := by
  obtain ⟨conn, found, args, parsed, out⟩ := mirrors.conn
  have isFirst : getArg conn.args 0 svr = .ok first svr := by
    rw [args, begins]
    rfl
  obtain ⟨is, text⟩ := mirrors.arg (begins ▸ List.mem_cons_self ..)
  have notEval : fkStr2upper (scene.text first) ≠ ascii "EVAL" := by
    rw [← text]
    refine mirrors.mirror.ok.names scene.client conn found first ?_
    rw [args, begins]
    rfl
  obtain ⟨casts, named, _⟩ := rawStr_reads mirrors.mirror.ok is
  have still := mirrors.withCasts casts
  refine Tandem.left_first (connOf_eq found)
    (Tandem.left_first isFirst (Tandem.left_first named ?_))
  have refused : ∀ {add}, Replying add →
      Tandem (fun _ _ after final => Mirrors scene.freed after final [] ∅)
      (fun after final => ∃ args argParsed,
        Mirrors { scene with args := args, argParsed := argParsed } after final [] ∅)
      (fun after => after.crashed = true)
      ((fkConnFreeArgs scene.client >>= fun _ => reply scene.client add)
        { svr with casts := casts }) (add work) := by
    intro add replying
    obtain ⟨middle, freed, empty⟩ := fkConnFreeArgs_mirrors still
    have answers : Mimics scene.freed (reply scene.client add) add middle work :=
      reply_mimics replying empty
    exact Tandem.left_first freed (answers.imp (fun _ _ _ _ served => served) fun _ _ failed =>
      ⟨[], 0, failed⟩)
  rw [begins, List.map_cons, text]
  cases known : protoOf (fkStr2upper (scene.text first)) with
  | none =>
      rw [procArgs_unknown (protoOf_none known)]
      exact refused (Rsp.replying (.error (ascii "Invalid Protocol")))
  | some pto =>
      obtain ⟨other, member, search, same, isName, accepts⟩ := @protoOf_some eval _ _ known
      have length : (rest.map scene.text).length + 1 = scene.args.length := by
        rw [begins, List.length_cons, List.length_map]
      have spoken : Spoken scene (fkStr2upper (scene.text first) :: rest.map scene.text) := by
        refine ⟨length, ?_⟩
        rw [begins]
        rfl
      rw [procArgs_known search, length, accepts]
      dsimp only
      rw [args]
      split
      · next counted =>
          rw [← isName] at notEval
          rw [← accepts] at counted
          have handled := @handlerOf_mimics scene { svr with casts := casts } work fkCmdEval eval _
            other member notEval counted still spoken
          rw [← same]
          refine Tandem.bind (handled.imp (fun _ _ _ _ served => served) fun _ _ failed =>
            ⟨_, _, failed⟩) fun _ _ middle between kept => ?_
          obtain ⟨noted, last, logged, also, begun⟩ :=
            @fkBlogAppend_mirrors _ _ _ (fkStr2upper (scene.text first) :: rest.map scene.text)
              pto other kept
          obtain ⟨after, freed, done⟩ := fkConnFreeArgs_mirrors begun
          exact Tandem.left_first logged (Tandem.of_ok freed also done)
      · exact refused (Rsp.replying (.error (ascii "Wrong Argument Number")))

/-- The client goes; the others stay. -/
structure Left (scene : Scene) (after : FkSvr) (plain : Freekick.FkSvr) : Prop where
  mirror : Mirror after plain [] ∅
  gone : after.conns.find scene.client = none
  rest : ∀ other, other ≠ scene.client → after.conns.find other = scene.rest other
  text : ∀ client conn, after.conns.find client = some conn →
    ∀ arg ∈ conn.args, after.items.content.strOf arg = scene.text arg

theorem fkSvrRemoveConn_left (mirrors : Mirrors scene svr work [] ∅) :
    ∃ after, fkSvrRemoveConn scene.client svr = .ok () after ∧ Left scene after work.svr := by
  obtain ⟨middle, freed, last⟩ := fkConnFreeArgs_mirrors mirrors
  obtain ⟨conn, found, args, _⟩ := last.conn
  have empty : (middle.conns.find scene.client).elim [] FkConn.args = [] := by
    rw [show middle.conns.find scene.client = some conn from found]
    exact args
  refine ⟨_, (Act.bind_ok freed).trans rfl, last.mirror.withConns (last.mirror.ok.dropConn empty),
    Function.update_self .., fun other apart => ?_, fun client conn there arg member => ?_⟩
  · exact (Function.update_of_ne apart ..).trans (last.rest other apart)
  · change Function.update middle.conns.find scene.client none client = some conn at there
    by_cases here : client = scene.client
    · rw [here, Function.update_self] at there
      cases there
    · rw [Function.update_of_ne here] at there
      exact last.text client conn there arg member

/-! ## One client changes -/

namespace ReadsAs

theorem change (reads : ReadsAs svr values) (client : Nat)
    (mirror : Mirror after final.sys.svr [] ∅)
    (rest : ∀ other, other ≠ client → after.conns.find other = svr.conns.find other)
    (text : ∀ other conn, other ≠ client → after.conns.find other = some conn → ∀ arg ∈ conn.args,
      after.items.content.strOf arg = svr.items.content.strOf arg)
    (others : ∀ other, other ≠ client →
      final.sys.conns other = values.sys.conns other ∧ final.requests other = values.requests other)
    (out : final.sys.conns client = (after.conns.find client).map FkConn.out)
    (request : ∀ conn, after.conns.find client = some conn →
      final.requests client = ⟨conn.args.map after.items.content.strOf, conn.argParsed⟩) :
      ReadsAs after final := by
  refine ⟨mirror, fun other => ?_, fun other conn found => ?_⟩
  · by_cases here : other = client
    · rw [here]
      exact out
    · rw [(others other here).1, rest other here]
      exact reads.conns other
  · by_cases here : other = client
    · rw [here] at found ⊢
      exact request conn found
    · have same := List.map_congr_left (text other conn here found)
      rw [rest other here] at found
      rw [(others other here).2, reads.requests other conn found, same]

/-- Other databases. -/
theorem of_rest (reads : ReadsAs svr values) (rest : Rest svr after)
    (mirror : Mirror after plain [] ∅) :
    ReadsAs after (values.withSys { values.sys with svr := plain }) := by
  refine ⟨mirror, fun other => ?_, fun other conn found => ?_⟩
  · rw [rest.conns]
    exact reads.conns other
  · have same : conn.args.map after.items.content.strOf = conn.args.map svr.items.content.strOf :=
      List.map_congr_left fun arg member =>
        Content.strOf_congr (Shrinks.of_live rest.items
          (mirror.ok.args other conn found arg member).live)
    rw [same]
    rw [rest.conns] at found
    exact reads.requests other conn found

theorem withCasts (reads : ReadsAs svr values) (casts : List (FkItemType × FkItemType)) :
    ReadsAs { svr with casts := casts } values :=
      ⟨reads.mirror.withCasts casts, reads.conns, reads.requests⟩

end ReadsAs

/-- What a client sees of the server when a request runs. -/
def sceneOf (svr : FkSvr) (client : Nat) (conn : FkConn) : Scene where
  client := client
  args := conn.args
  argParsed := conn.argParsed
  text := svr.items.content.strOf
  rest := svr.conns.find

namespace ReadsAs

theorem mirrors (reads : ReadsAs svr values) (found : svr.conns.find client = some conn) :
    Mirrors (sceneOf svr client conn) svr ⟨values.sys.svr, conn.out⟩ [] ∅ :=
  ⟨reads.mirror, ⟨conn, found, rfl, rfl, rfl⟩, fun _ _ => rfl, fun _ _ _ _ _ => rfl⟩

/-- The request is over. -/
theorem served (reads : ReadsAs svr values)
    (mirrors : Mirrors (sceneOf svr client conn).freed after work [] ∅) :
    ReadsAs after
      ((values.withSys (({ values.sys with svr := work.svr }).setConn client
        (some work.out))).setRequest client ⟨[], 0⟩) := by
  obtain ⟨held, isHeld, args, parsed, out⟩ := mirrors.conn
  change after.conns.find client = some held at isHeld
  refine reads.change client mirrors.mirror mirrors.rest
    (fun other conn _ there arg member => mirrors.text other conn there arg member)
    (fun other apart => ⟨Function.update_of_ne apart .., Function.update_of_ne apart ..⟩) ?_
      fun conn there => ?_
  · rw [isHeld, Option.map_some, out]
    exact Function.update_self ..
  · obtain rfl := Option.some.inj (isHeld.symm.trans there)
    rw [args, parsed]
    exact Function.update_self ..

/-- The client is gone. -/
theorem left (reads : ReadsAs svr values) (left : Left (sceneOf svr client conn) after plain)
    (requests : Nat → FkRequest)
    (others : ∀ other, other ≠ client → requests other = values.requests other) :
    ReadsAs after ⟨({ values.sys with svr := plain }).setConn client none, requests⟩ := by
  have gone : after.conns.find client = none := left.gone
  refine reads.change client left.mirror left.rest
    (fun other conn _ there arg member => left.text other conn there arg member)
    (fun other apart => ⟨Function.update_of_ne apart .., others other apart⟩) ?_
      fun conn there => ?_
  · rw [gone]
    exact Function.update_self ..
  · rw [gone] at there
    cases there

end ReadsAs

/-! ## Events -/

/-- The act leaves what the server with values would be, or a crash where that is undefined. -/
def Follows (act : Act FkSvr Unit) (svr : FkSvr) (next : Option FkValues) : Prop :=
  ∃ after, act svr = .ok () after ∧ Steps.Beside ReadsAs (fun svr => svr.crashed = true) after next

namespace Follows

theorem idle (reads : ReadsAs svr values) : Follows (pure ()) svr (some values) :=
  ⟨svr, rfl, .here reads⟩

theorem onlyIf {condition other : Prop} [Decidable condition] [Decidable other]
    {act : Act FkSvr Unit} {next : Option FkValues}
    (reads : ReadsAs svr values) (same : other ↔ condition)
    (holds : condition → Follows act svr next) :
    Follows (Act.onlyIf condition act) svr (if other then next else some values) := by
  by_cases is : condition
  · obtain ⟨after, called, beside⟩ := holds is
    rw [if_pos (same.mpr is)]
    exact ⟨after, (if_pos is).trans called, beside⟩
  · rw [if_neg fun also => is (same.mp also)]
    exact ⟨svr, if_neg is, .here reads⟩

theorem atConn {absent : Act FkSvr Unit} {present : FkConn → Act FkSvr Unit}
    {nothing something : Option FkValues} (reads : ReadsAs svr values)
    (missing : svr.conns.find client = none → Follows absent svr nothing)
    (there : ∀ conn, svr.conns.find client = some conn → Follows (present conn) svr something) :
    Follows (Refs.atConn client absent present) svr (values.atConn client nothing something) := by
  unfold Follows Refs.atConn FkValues.atConn
  rw [reads.conns client, Option.isSome_map]
  cases found : svr.conns.find client with
  | none => exact missing found
  | some conn => exact there conn found

/-- Another state of a connection with the same arguments. -/
theorem setConn {changed : FkConn} (reads : ReadsAs svr values)
    (found : svr.conns.find client = some conn) (args : changed.args = conn.args)
    (dbIdx : changed.out.dbIdx = conn.out.dbIdx) (same : final.sys.svr = values.sys.svr)
    (others : ∀ other, other ≠ client →
      final.sys.conns other = values.sys.conns other ∧ final.requests other = values.requests other)
    (out : final.sys.conns client = some changed.out)
    (request : final.requests client = ⟨conn.args.map svr.items.content.strOf, changed.argParsed⟩) :
    Follows (Refs.setConn client changed) svr (some final) := by
  obtain ⟨_, called, ok⟩ := setConn_ok reads.mirror.ok found args dbIdx
  cases called
  have mirror := reads.mirror.withConns ok
  rw [← same] at mirror
  refine ⟨_, rfl, .here (reads.change client mirror
    (fun other apart => Function.update_of_ne apart ..) (fun _ _ _ _ _ _ => rfl) others
    ?_ fun conn there => ?_)⟩
  · change _ = (Function.update svr.conns.find client (some changed) client).map FkConn.out
    rw [Function.update_self]
    exact out
  · change Function.update svr.conns.find client (some changed) client = some conn at there
    rw [Function.update_self] at there
    cases there
    rw [args]
    exact request

end Follows

theorem runCmd_follows {first : Nat} {rest : List Nat} (reads : ReadsAs svr values)
    (found : svr.conns.find client = some conn) (begins : conn.args = first :: rest) :
    Follows (runCmd fkCmdEval client) svr
      ((values.sys.command eval client (conn.args.map svr.items.content.strOf)).map fun sys =>
        (values.withSys sys).setRequest client ⟨[], 0⟩) := by
  have tandem := @fkConnProcCmd_mimics (sceneOf svr client conn) svr ⟨values.sys.svr, conn.out⟩
    fkCmdEval eval first rest (reads.mirrors found) begins
  dsimp only [sceneOf] at tandem
  unfold Follows runCmd FkSystem.command
  rw [reads.conns client, found]
  dsimp only [Option.map_some]
  rw [fkConnProcCmd_args]
  generalize fkConnProcCmd fkCmdEval client svr = low at tandem ⊢
  generalize procArgs eval (conn.args.map svr.items.content.strOf) ⟨values.sys.svr, conn.out⟩ =
    high at tandem ⊢
  cases tandem with
  | ok holds => exact ⟨_, rfl, .here (reads.served holds)⟩
  | lost gone => exact ⟨_, if_pos gone, .gone gone⟩
  | err holds =>
      obtain ⟨args, argParsed, mirrors⟩ := holds
      obtain ⟨after, removed, left⟩ := fkSvrRemoveConn_left mirrors
      have up := mirrors.mirror.alive
      have gone : Left (sceneOf svr client conn) after _ :=
        ⟨left.mirror, left.gone, left.rest, left.text⟩
      refine ⟨after, ?_, .here (reads.left gone _ fun other apart =>
        Function.update_of_ne apart ..)⟩
      dsimp only
      rw [if_neg (by rw [up]; exact Bool.false_ne_true)]
      exact removed

/-- An argument is an item of its own until a handler shares it. -/
theorem stored_reads {bytes : Bytes} (reads : ReadsAs svr values)
    (found : svr.conns.find client = some conn)
    (named : conn.args = [] → fkStr2upper bytes ≠ ascii "EVAL") :
    ∃ item middle after, onItems (fkItemCreate .str (.str bytes)) svr = .ok item middle ∧
      middle.conns = svr.conns ∧
      (onItems (fkItemIncRef item) >>= fun _ =>
        setConn client { conn with args := conn.args ++ [item] }) middle = .ok () after ∧
      after.conns.find client = some { conn with args := conn.args ++ [item] } ∧
      (conn.args ++ [item]).map after.items.content.strOf =
        conn.args.map svr.items.content.strOf ++ [bytes] ∧
      ReadsAs after (values.setRequest client ⟨conn.args.map svr.items.content.strOf ++ [bytes],
        conn.argParsed⟩) := by
  have empty : svr.items.content.Typed (.str bytes) := ⟨nofun, nofun⟩
  obtain ⟨item, made, created, unused, fresh, content⟩ :=
    Mirror.create (.str bytes) reads.mirror empty
  have isStr : made.content.IsStr item := ⟨bytes, by rw [content, Function.update_self]; rfl⟩
  obtain ⟨items, taken, held, same⟩ := incRef_ok fresh.ok isStr.live
  rw [insert_empty_eq, Set.sdiff_self] at held
  change items.content = made.content at same
  have kept : ∀ id, svr.items.content.IsStr id → items.content id = svr.items.content id :=
    fun id is => by
      rw [same]
      exact str_of_new unused content is
  have strs : ∀ arg ∈ conn.args ++ [item], items.content.IsStr arg := by
    intro arg member
    rcases List.mem_append.mp member with old | new
    · exact held.args client conn found arg old
    · rw [List.mem_singleton.mp new, same]
      exact isStr
  have newText : items.content.strOf item = bytes := by
    rw [Content.strOf, same, content, Function.update_self]
  have texts : (conn.args ++ [item]).map items.content.strOf =
      conn.args.map svr.items.content.strOf ++ [bytes] := by
    have old : conn.args.map items.content.strOf = conn.args.map svr.items.content.strOf :=
      List.map_congr_left fun arg member =>
        Content.strOf_congr (kept arg (reads.mirror.ok.args client conn found arg member))
    rw [List.map_append, old, List.map_singleton, newText]
  have notEval : items.content.NotEval (conn.args ++ [item]) := by
    intro first isFirst
    cases args : conn.args with
    | nil =>
        rw [args] at isFirst
        cases isFirst
        rw [newText]
        exact named args
    | cons name rest =>
        refine held.names client conn found first ?_
        rw [args] at isFirst ⊢
        exact isFirst
  have alone : Mirror { svr with items := items } values.sys.svr [item] ∅ := by
    refine fresh.withItems held (fun id owned => ?_) fun _ _ _ => by rw [same]
    change items.content.Owned id at owned
    rw [same] at owned
    have once := fresh.sole id owned
    have none : [item].count id = 0 := List.count_eq_zero.mpr fun member =>
      isStr.not_owned (List.mem_singleton.mp member ▸ owned)
    unfold plus at once ⊢
    rw [none]
    exact once
  have ok : Ok False { svr with
      items := items
      conns := svr.conns.put client { conn with args := conn.args ++ [item] } } [] ∅ :=
    held.withConn (weight_eq found) strs notEval (held.dbIdx client conn found) fun id =>
      List.count_append
  refine ⟨item, _, _, onItems_eq created, rfl, (Act.bind_ok (onItems_eq taken)).trans rfl,
    Function.update_self .., texts, ?_⟩
  refine reads.change client (alone.withConns ok)
    (fun other apart => Function.update_of_ne apart ..)
    (fun other conn apart there arg member => ?_)
      (fun other apart => ⟨rfl, Function.update_of_ne apart ..⟩) ?_ fun other there => ?_
  · change Function.update svr.conns.find client _ other = some conn at there
    rw [Function.update_of_ne apart] at there
    exact Content.strOf_congr (kept arg (reads.mirror.ok.args other conn there arg member))
  · change values.sys.conns client = (Function.update svr.conns.find client _ client).map FkConn.out
    rw [Function.update_self, reads.conns client, found]
    rfl
  · change Function.update svr.conns.find client _ client = some other at there
    rw [Function.update_self] at there
    cases there
    change Function.update values.requests client _ client =
      (⟨(conn.args ++ [item]).map items.content.strOf, conn.argParsed⟩ : FkRequest)
    rw [Function.update_self, texts]

theorem parseArg_follows {bytes : Bytes} (reads : ReadsAs svr values)
    (found : svr.conns.find client = some conn)
    (named : conn.args = [] → fkStr2upper bytes ≠ ascii "EVAL") :
    Follows (parseArg fkCmdEval client bytes) svr (values.parseArg eval client bytes) := by
  obtain ⟨item, middle, after, created, conns, taken, there, texts, stored⟩ :=
    stored_reads reads found named
  have looked : connOf client middle = .ok conn middle := connOf_eq (by rw [conns, found])
  have begun : parseArg fkCmdEval client bytes svr =
      Act.onlyIf (conn.args.length + 1 = conn.argParsed) (runCmd fkCmdEval client) after := by
    obtain ⟨_, between, first, second⟩ := Act.bind_eq_ok taken
    exact (Act.bind_ok created).trans
      ((Act.bind_ok looked).trans ((Act.bind_ok first).trans (Act.bind_ok second)))
  have request := reads.requests client conn found
  unfold Follows FkValues.parseArg
  rw [begun, request]
  dsimp only
  rw [List.length_map]
  unfold Act.onlyIf
  split
  · obtain ⟨first, rest, begins⟩ : ∃ first rest, conn.args ++ [item] = first :: rest :=
      List.exists_cons_of_ne_nil (List.append_ne_nil_of_right_ne_nil _ (List.cons_ne_nil _ _))
    obtain ⟨last, ran, beside⟩ :=
      @runCmd_follows after _ client _ fkCmdEval eval first rest stored there begins
    dsimp only at beside
    rw [texts] at beside
    refine ⟨last, ran, ?_⟩
    have same : ∀ sys,
        ((values.setRequest client ⟨conn.args.map svr.items.content.strOf ++ [bytes],
          conn.argParsed⟩).withSys sys).setRequest client ⟨[], 0⟩ =
        (values.withSys sys).setRequest client ⟨[], 0⟩ := fun sys =>
      congrArg (FkValues.mk sys) (Function.update_idem ..)
    simp only [same] at beside
    exact beside
  · exact ⟨after, rfl, .here stored⟩

theorem sampleOne_follows {idx number : Nat} {dct : FkDict Nat Nat} (reads : ReadsAs svr values)
    (below : idx < svr.dbcnt) (found : svr.dicts.find (true, idx) = some dct) :
    Follows (sampleOne idx number dct) svr
      ((Freekick.sampleOne idx number values.sys.svr).map fun svr =>
        values.withSys { values.sys with svr := svr }) := by
  obtain ⟨wf, keys, _⟩ := reads.mirror.ok.dicts _ dct found
  have same : values.sys.svr.expdb idx = svr.items.content.dictOf dct :=
    reads.mirror.alike.dicts true idx dct found
  have image : fkDictRandom (svr.items.content.dictOf dct) number =
      (fkDictRandom dct number).map (Prod.map svr.items.content.strOf svr.items.content.itemOf) :=
    fkDictRandom_image _ _ dct number
  unfold Follows sampleOne Freekick.sampleOne
  rw [same, image]
  cases picked : fkDictRandom dct number with
  | none => exact ⟨_, rfl, .gone rfl⟩
  | some elt =>
      have member := fkDictRandom_mem wf picked
      have is := keys elt member
      obtain ⟨expired, after, plain, low, rest, high, mirror⟩ :=
        @fkHandleExpiredKey_mirror _ _ _ _ _ (sweepOut idx) reads.mirror below is
          fun after ok _ kept => (ok.dicts _ dct (kept.trans found)).keys elt member
      refine ⟨after, (Act.bind_ok low).trans rfl, ?_⟩
      change Freekick.fkHandleExpiredKey _ _ = _ at high
      dsimp only [Option.map_some, Prod.map]
      rw [high]
      exact .here (reads.of_rest rest mirror)

theorem Event.act_follows {maxWbuf : Nat} (event : Event) (reads : ReadsAs svr values)
    (notEval : event.NotEval) :
    Follows (event.act fkCmdEval maxWbuf) svr (values.step eval maxWbuf event) := by
  cases event with
  | connect client =>
      refine Follows.atConn reads (fun missing => ?_) fun _ _ => .idle reads
      have none : (svr.conns.find client).elim [] FkConn.args = [] := by
        rw [missing]
        rfl
      have ok : Ok False { svr with
          conns := svr.conns.put client ⟨[], 0, (fkConnCreate .real maxWbuf).toFkConnOut⟩ } [] ∅ :=
        reads.mirror.ok.withConn none nofun (by rintro _ ⟨⟩) reads.mirror.ok.positive fun _ => rfl
      refine ⟨_, rfl, .here (reads.change client (reads.mirror.withConns ok)
        (fun other apart => Function.update_of_ne apart ..)
        (fun _ _ _ _ _ _ => rfl) (fun other apart =>
          ⟨Function.update_of_ne apart .., Function.update_of_ne apart ..⟩) ?_
        fun conn there => ?_)⟩
      · change Function.update values.sys.conns client _ client =
          (Function.update svr.conns.find client _ client).map FkConn.out
        rw [Function.update_self, Function.update_self]
        rfl
      · change Function.update svr.conns.find client _ client = some conn at there
        rw [Function.update_self] at there
        cases there
        exact Function.update_self ..
  | header client argParsed =>
      refine Follows.atConn reads (fun _ => .idle reads) fun conn found => ?_
      have request := reads.requests client conn found
      rw [request]
      refine Follows.onlyIf reads Iff.rfl fun _ => Follows.setConn reads found rfl rfl rfl
        (fun other apart => ⟨rfl, Function.update_of_ne apart ..⟩) ?_ (Function.update_self ..)
      exact (reads.conns client).trans (congrArg (Option.map FkConn.out) found)
  | name client bytes =>
      refine Follows.atConn reads (fun _ => .idle reads) fun conn found => ?_
      rw [reads.requests client conn found]
      refine Follows.onlyIf reads (and_congr_right fun _ => List.map_eq_nil_iff) fun _ => ?_
      exact parseArg_follows reads found fun _ => notEval
  | arg client bytes =>
      refine Follows.atConn reads (fun _ => .idle reads) fun conn found => ?_
      rw [reads.requests client conn found]
      refine Follows.onlyIf reads (and_congr_right fun _ => not_congr List.map_eq_nil_iff)
        fun begun => ?_
      exact parseArg_follows reads found fun none => (begun.2 none).elim
  | sent client count =>
      refine Follows.atConn reads (fun _ => .idle reads) fun conn found =>
        Follows.setConn reads found rfl rfl rfl
        (fun other apart => ⟨Function.update_of_ne apart .., rfl⟩) ?_
          (reads.requests client conn found)
      rw [reads.conns client, found]
      exact Function.update_self ..
  | close client =>
      refine Follows.atConn reads (fun _ => .idle reads) fun conn found => ?_
      obtain ⟨after, removed, left⟩ := fkSvrRemoveConn_left (reads.mirrors found)
      exact ⟨after, removed, .here (reads.left left values.requests fun _ _ => rfl)⟩
  | sample idx number =>
      have same : values.sys.svr.dbcnt = svr.dbcnt := reads.mirror.alike.dbcnt
      refine Follows.onlyIf reads (by rw [same]) fun below => ?_
      obtain ⟨dct, found⟩ := reads.mirror.ok.there true idx below
      obtain ⟨after, called, beside⟩ :=
        @sampleOne_follows svr values idx number dct reads below found
      exact ⟨after, (Act.bind_ok (dictAt_eq found)).trans called, beside⟩
  | dump =>
      obtain ⟨casts, called, _⟩ := fkKdbSave_reads reads.mirror.ok
      exact ⟨_, called, .here (reads.withCasts casts)⟩

theorem step_beside {maxWbuf : Nat} {event : Event} (reads : ReadsAs svr values)
    (notEval : event.NotEval) :
    ∃ after, step fkCmdEval maxWbuf svr event = some after ∧
      Steps.Beside ReadsAs (fun svr => svr.crashed = true) after
        (values.step eval maxWbuf event) := by
  obtain ⟨after, called, beside⟩ :=
    @Event.act_follows svr values fkCmdEval eval maxWbuf event reads notEval
  refine ⟨after, ?_, beside⟩
  unfold step
  rw [reads.mirror.alive, called]
  rfl

/-! ## Runs -/

theorem fkSvrInit_reads {dbcnt : Nat} (positive : 0 < dbcnt) (blogOn : Bool) (clock : Nat → Int)
    (junk : Nat → UInt8) :
    ReadsAs (fkSvrInit dbcnt blogOn clock junk) (fkValuesInit dbcnt blogOn clock junk) := by
  obtain ⟨either, _⟩ := initDicts (List.range dbcnt) .empty
  refine ⟨⟨fkSvrInit_ok positive blogOn clock junk, fun id owned => ?_,
    ⟨rfl, rfl, rfl, rfl, rfl, fun isexp idx dct found => ?_⟩, rfl⟩,
    fun _ => rfl, fun _ _ found => nomatch found⟩
  · obtain ⟨_, _, there, _⟩ := owned
    cases there
  · have created : dct = fkDictCreate := by
      rcases either (isexp, idx) with new | old
      · exact (Option.some.inj (new.symm.trans found)).symm
      · cases old.symm.trans found
    rw [created]
    refine Eq.trans ?_ fkDictInit_image.symm
    cases isexp <;> rfl

instance decidableNotEval : ∀ event : Event, Decidable event.NotEval
  | .name _ bytes => inferInstanceAs (Decidable (fkStr2upper bytes ≠ ascii "EVAL"))
  | .connect _ | .header _ _ | .arg _ _ | .sent _ _ | .close _ | .sample _ _ | .dump =>
      isTrue trivial

/-- Whatever clients do and whatever expires, the server with its shared items is what the server
that copies values is, and crashes where that one has no next state. -/
theorem run_readsAs (fkCmdEval : Handler) (eval : Freekick.Handler) (maxWbuf dbcnt : Nat)
    (blogOn : Bool) (clock : Nat → Int) (junk : Nat → UInt8) (positive : 0 < dbcnt)
    (events : List Event) (notEval : ∀ event ∈ events, event.NotEval) :
    ∃ final, Steps.run (step fkCmdEval maxWbuf) (fkSvrInit dbcnt blogOn clock junk) events =
      some final ∧ Steps.Beside ReadsAs (fun svr => svr.crashed = true) final
        (Steps.run (FkValues.step eval maxWbuf) (fkValuesInit dbcnt blogOn clock junk) events) := by
  refine Steps.run_beside (fun svr event crashed => ?_)
    (fun svr values event reads good => step_beside reads good)
    (fkSvrInit_reads positive blogOn clock junk) notEval
  unfold step
  rw [if_pos crashed]

theorem run_readsAs_lpush :
    ∃ final, Steps.run (step (fun _ _ => Act.fault) 1024) (fkSvrInit 1 true (fun _ => 0) fun _ => 0)
      [.connect 4, .header 4 3, .name 4 (ascii "lpush"), .arg 4 (ascii "k"), .arg 4 (ascii "v"),
        .close 4] = some final ∧
      Steps.Beside ReadsAs (fun svr => svr.crashed = true) final
        (Steps.run (FkValues.step (fun _ => Act.fault) 1024)
          (fkValuesInit 1 true (fun _ => 0) fun _ => 0) [.connect 4, .header 4 3,
            .name 4 (ascii "lpush"), .arg 4 (ascii "k"), .arg 4 (ascii "v"), .close 4]) :=
  run_readsAs _ _ _ 1 _ _ _ Nat.one_pos _ (by decide)

end Freekick.Refs
