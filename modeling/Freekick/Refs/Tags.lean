import Freekick.Refs.Runs

/-!
# Tags that are respected

In a run without a `ZADD` on a key that is there, every item is of the type that belongs into its
slot, and every cast was to the type of the tag.  `fk_cmd_zadd` is the only handler that does not
look at the tag first.
-/

namespace Freekick.Refs

open Lib Lib.Call FkItems

variable {right : Prop} {svr : FkSvr} {fkCmdEval : Handler}

/-! ## Values of another type -/

/-- Commands that work on the values of one type. -/
def typedCmds : List (Bytes × FkItemType) :=
  [(ascii "GET", .str), (ascii "LPUSH", .list), (ascii "RPUSH", .list), (ascii "LPOP", .list),
    (ascii "RPOP", .list), (ascii "LLEN", .list), (ascii "HSET", .dict), (ascii "HGET", .dict)]

/-- How such a command looks for its key; only `GET` looks at the deadline. -/
def lookupOf (name : Bytes) : Bool × Nat → Nat → Act FkSvr (Option Nat) :=
  if name = ascii "GET" then getAlive else dbGet

/-- A typed command answers the type error when the tag of the value is another one. -/
def AnswersTypeErr (fkCmdEval : Handler) (svr : FkSvr) : Prop :=
  ∀ name type, typedCmds.lookup name = some type → ∀ pto args, protoOf name = some pto →
    pto.accepts args.length = true → ∀ client conn key id mid item,
    svr.conns.find client = some conn → args[1]? = some key →
      lookupOf name (false, conn.out.dbIdx) key svr = .ok (some id) mid →
        mid.items.used.find id = some item → item.type ≠ type →
        handlerOf fkCmdEval name client args svr = reply client (fkConnAddErrorRsp fkRspTypeErr) mid

/-- `MGET` answers nil for an element of another type, and goes on behind it. -/
def MgetAnswersNil (fkCmdEval : Handler) (svr : FkSvr) : Prop :=
  ∀ client args earlier key later, args.drop 1 = earlier ++ key :: later →
    ∀ between, (reply client (fkConnAddMbulkRsp (args.length - 1 : Nat)) >>= fun _ =>
        Act.forEach (mgetOne client) earlier) svr = .ok () between →
      ∀ conn id mid item, between.conns.find client = some conn →
        getAlive (false, conn.out.dbIdx) key between = .ok (some id) mid →
          mid.items.used.find id = some item → item.type ≠ .str →
            handlerOf fkCmdEval (ascii "MGET") client args svr =
              (reply client (fkConnAddBulkRsp fkRspNil) >>= fun _ =>
                Act.forEach (mgetOne client) later) mid

theorem ofType_other {client id : Nat} {type : FkItemType} {absent : Act FkSvr Unit}
    {work : Nat → Act FkSvr Unit} {item : FkItem} (found : svr.items.used.find id = some item)
    (other : item.type ≠ type) :
    ofType client type (some id) absent work svr = reply client
      (fkConnAddErrorRsp fkRspTypeErr) svr := by
  have looked : itemAt id svr = .ok item svr := by
    unfold itemAt
    rw [found]
  refine (Act.bind_ok looked).trans ?_
  rw [if_pos other]

theorem answersTypeErr (fkCmdEval : Handler) (svr : FkSvr) : AnswersTypeErr fkCmdEval svr := by
  intro name type typed pto args known counted client conn key id mid item found isKey
    looked there other
  have second : getArg args 1 svr = .ok key svr := by
    unfold getArg
    rw [isKey]
    rfl
  have isConn : connOf client svr = .ok conn svr := by
    unfold connOf
    rw [found]
  have db : dbOf client svr = .ok (false, conn.out.dbIdx) svr := (Act.bind_ok isConn).trans rfl
  obtain ⟨inTable, rfl⟩ := (fkProtoSearch_eq_some _).mp known
  have enough := accepts_natAbs counted
  have push : ∀ pos, dbGet (false, conn.out.dbIdx) key svr = .ok (some id) mid → item.type ≠ .list →
      fkCmdGenericPush pos client args svr = reply client (fkConnAddErrorRsp fkRspTypeErr) mid :=
        fun pos looked other =>
    (Act.bind_ok second).trans
      ((Act.bind_ok db).trans ((Act.bind_ok looked).trans (ofType_other there other)))
  have pop : ∀ pos, dbGet (false, conn.out.dbIdx) key svr = .ok (some id) mid → item.type ≠ .list →
      fkCmdGenericPop pos client args svr = reply client (fkConnAddErrorRsp fkRspTypeErr) mid :=
        fun pos looked other =>
    (Act.bind_ok second).trans
      ((Act.bind_ok db).trans ((Act.bind_ok looked).trans (ofType_other there other)))
  cases pto, inTable using protos_cases with
  | get =>
      obtain rfl : FkItemType.str = type := Option.some.inj typed
      exact (Act.bind_ok second).trans
        ((Act.bind_ok db).trans ((Act.bind_ok looked).trans (ofType_other there other)))
  | lpush =>
      obtain rfl : FkItemType.list = type := Option.some.inj typed
      exact push .head looked other
  | rpush =>
      obtain rfl : FkItemType.list = type := Option.some.inj typed
      exact push .tail looked other
  | lpop =>
      obtain rfl : FkItemType.list = type := Option.some.inj typed
      exact pop .head looked other
  | rpop =>
      obtain rfl : FkItemType.list = type := Option.some.inj typed
      exact pop .tail looked other
  | llen =>
      obtain rfl : FkItemType.list = type := Option.some.inj typed
      exact (Act.bind_ok second).trans
        ((Act.bind_ok db).trans ((Act.bind_ok looked).trans (ofType_other there other)))
  | hset =>
      obtain rfl : FkItemType.dict = type := Option.some.inj typed
      obtain ⟨field, isField, _⟩ :=
        getArg_ok (show 2 < args.length from Nat.lt_of_succ_le (Nat.le_of_succ_le enough))
      exact (Act.bind_ok second).trans ((Act.bind_ok (isField svr)).trans
        ((Act.bind_ok db).trans ((Act.bind_ok looked).trans (ofType_other there other))))
  | hget =>
      obtain rfl : FkItemType.dict = type := Option.some.inj typed
      obtain ⟨field, isField, _⟩ := getArg_ok (show 2 < args.length from enough)
      exact (Act.bind_ok second).trans ((Act.bind_ok (isField svr)).trans
        ((Act.bind_ok db).trans ((Act.bind_ok looked).trans (ofType_other there other))))
  | _ => exact nomatch (show none = some type from typed)

theorem mgetOne_other {client key id : Nat} {conn : FkConn} {mid : FkSvr} {item : FkItem}
    (found : svr.conns.find client = some conn)
    (looked : getAlive (false, conn.out.dbIdx) key svr = .ok (some id) mid)
    (there : mid.items.used.find id = some item) (other : item.type ≠ .str) :
    mgetOne client key svr = reply client (fkConnAddBulkRsp fkRspNil) mid := by
  have isConn : connOf client svr = .ok conn svr := by
    unfold connOf
    rw [found]
  have db : dbOf client svr = .ok (false, conn.out.dbIdx) svr := (Act.bind_ok isConn).trans rfl
  have isItem : itemAt id mid = .ok item mid := by
    unfold itemAt
    rw [there]
  refine (Act.bind_ok db).trans ((Act.bind_ok looked).trans ((Act.bind_ok isItem).trans ?_))
  rw [if_pos other]

theorem mgetAnswersNil (fkCmdEval : Handler) (svr : FkSvr) : MgetAnswersNil fkCmdEval svr := by
  intro client args earlier key later parts between ran conn id mid item found looked there other
  obtain ⟨value, begun, header, ranEarlier⟩ := Act.bind_eq_ok ran
  have one := mgetOne_other found looked there other
  change fkCmdMget client args svr = _
  unfold fkCmdMget
  rw [parts, Act.bind_ok header, Act.forEach_append, Act.bind_ok ranEarlier]
  change Act.andThen _ _ between = Act.andThen _ _ mid
  unfold Act.andThen
  rw [one]

/-! ## Tags in every run -/

/-- Every item is of the type that belongs into its slot, and no cast was wrong. -/
structure TagsRespected (svr : FkSvr) : Prop where
  tags : ∀ id item, svr.items.used.find id = some item → item.type = item.entity.type
  values : ∀ idx dct, svr.dicts.find (false, idx) = some dct → ∀ elt ∈ dct.elements,
    svr.items.content.IsStr elt.1 ∧ svr.items.content.IsValue elt.2
  deadlines : ∀ idx dct, svr.dicts.find (true, idx) = some dct → ∀ elt ∈ dct.elements,
    svr.items.content.IsStr elt.1 ∧ svr.items.content.IsNum elt.2
  nodes : ∀ id item nodes, svr.items.used.find id = some item → item.entity = .list nodes →
    ∀ node ∈ nodes, svr.items.content.IsStr node
  fields : ∀ id item fields, svr.items.used.find id = some item → item.entity = .dict fields →
    ∀ elt ∈ fields.elements, svr.items.content.IsStr elt.1 ∧ svr.items.content.IsStr elt.2
  casts : ∀ cast ∈ svr.casts, cast.1 = cast.2

theorem Ok.tagsRespected (ok : Ok True svr [] ∅) : TagsRespected svr := by
  have typed : ∀ id item, svr.items.used.find id = some item →
      item.type = item.entity.type ∧ svr.items.content.Typed item.entity := fun id item found =>
    ok.exact.typed id item.type item.entity (content_eq found)
  refine ⟨fun id item found => (typed id item found).1, fun idx dct found elt member => ?_,
    fun idx dct found elt member => ?_, fun id item nodes found is => ?_,
    fun id item fields found is elt member => ⟨?_, ?_⟩, ok.casts trivial⟩
  · exact ⟨(ok.dicts _ dct found).keys elt member, (ok.dicts _ dct found).values elt member⟩
  · exact ⟨(ok.dicts _ dct found).keys elt member, (ok.dicts _ dct found).values elt member⟩
  · have slots := (typed id item found).2.slots
    rw [is] at slots
    exact slots
  · have slots := (typed id item found).2.slots
    rw [is] at slots
    exact slots _ (key_mem_slots member)
  · have slots := (typed id item found).2.slots
    rw [is] at slots
    exact slots _ (List.mem_flatMap.mpr
      ⟨elt, member, List.mem_cons_of_mem _ (List.mem_cons_self ..)⟩)

/-- Tags are respected all along a run in which no step runs `ZADD` on a key that is there. -/
theorem run_tagsRespected (fkCmdEval : Handler) (maxWbuf dbcnt : Nat) (blogOn : Bool)
    (clock : Nat → Int) (junk : Nat → UInt8) (positive : 0 < dbcnt) (events : List Event)
    (notEval : ∀ event ∈ events, event.NotEval)
    (spared : Steps.Throughout (step fkCmdEval maxWbuf) (fun svr event => svr.crashed = false →
      ¬ ZaddOnKey svr event) (fkSvrInit dbcnt blogOn clock junk) events) :
    ∃ final, Steps.run (step fkCmdEval maxWbuf) (fkSvrInit dbcnt blogOn clock junk) events =
      some final ∧ TagsRespected final ∧ AnswersTypeErr fkCmdEval final ∧
      MgetAnswersNil fkCmdEval final := by
  have steps : ∀ svr event, Ok False svr [] ∅ → event.NotEval →
      ∃ next, step fkCmdEval maxWbuf svr event = some next ∧ Ok False next [] ∅ :=
    fun _ _ ok good => step_ok ok good nofun
  have kept : ∀ svr event next, Ok True svr [] ∅ → event.NotEval →
      (svr.crashed = false → ¬ ZaddOnKey svr event) →
      step fkCmdEval maxWbuf svr event = some next → Ok True next [] ∅ := by
    intro svr event next ok good spared stepped
    obtain ⟨after, called, last⟩ := @step_ok _ _ fkCmdEval maxWbuf _ ok good fun _ => spared
    obtain rfl := Option.some.inj (stepped.symm.trans called)
    exact last
  obtain ⟨final, reached, _⟩ :=
    Steps.run_succeeds steps (fkSvrInit_ok positive blogOn clock junk) notEval
  have ok := Steps.run_keeps kept (fkSvrInit_ok positive blogOn clock junk) notEval spared reached
  exact ⟨final, reached, ok.tagsRespected, answersTypeErr fkCmdEval final,
    mgetAnswersNil fkCmdEval final⟩

/-- A string under a key. -/
def settingEvents : List Event :=
  [.connect 4, .header 4 3, .name 4 (ascii "SET"), .arg 4 (ascii "k"), .arg 4 (ascii "v")]

def zaddEvents : List Event :=
  settingEvents ++ [.header 4 4, .name 4 (ascii "ZADD"), .arg 4 (ascii "k"), .arg 4 (ascii "1"),
      .arg 4 (ascii "a")]

theorem run_tagsRespected_set :
    Steps.Throughout (step (fun _ _ => Act.fault) 1024) (fun svr event => svr.crashed = false →
      ¬ ZaddOnKey svr event)
        (fkSvrInit 1 true (fun _ => 0) fun _ => 0) settingEvents ∧
      ∃ final, Steps.run (step (fun _ _ => Act.fault) 1024)
        (fkSvrInit 1 true (fun _ => 0) fun _ => 0) settingEvents = some final ∧
        TagsRespected final ∧ AnswersTypeErr (fun _ _ => Act.fault) final ∧
          MgetAnswersNil (fun _ _ => Act.fault) final := by
  have named : fkStr2upper (ascii "SET") ≠ ascii "EVAL" := by decide
  have spared : Steps.Throughout (step (fun _ _ => Act.fault) 1024)
      (fun svr event => svr.crashed = false → ¬ ZaddOnKey svr event)
      (fkSvrInit 1 true (fun _ => 0) fun _ => 0) settingEvents := by decide +kernel
  refine ⟨spared, run_tagsRespected _ _ 1 _ _ _ Nat.one_pos _ ?_ spared⟩
  simp only [settingEvents, List.forall_mem_cons]
  exact ⟨trivial, trivial, named, trivial, trivial, nofun⟩

/-- `ZADD` takes the string for a skip list, and answers that one member was added. -/
theorem run_castsStr :
    ∃ final, Steps.run (step (fun _ _ => Act.fault) 1024) (fkSvrInit 1 true (fun _ => 0) fun _ => 0)
      zaddEvents = some final ∧ (∀ event ∈ zaddEvents, event.NotEval) ∧
      (FkItemType.str, FkItemType.sklist) ∈ final.casts ∧
      (final.conns.find 4).map (fun conn => conn.out.wbuf.payload) = some (ascii "+OK\r\n:1\r\n") ∧
      ¬ TagsRespected final := by
  have known : (Steps.run (step (fun _ _ => Act.fault) 1024)
      (fkSvrInit 1 true (fun _ => 0) fun _ => 0) zaddEvents).map
      (fun final => (final.casts.contains (FkItemType.str, FkItemType.sklist),
        (final.conns.find 4).map fun conn => conn.out.wbuf.payload)) = some
        (true, some (ascii "+OK\r\n:1\r\n")) := by
    decide +kernel
  obtain ⟨final, reached, parts⟩ := Option.map_eq_some_iff.mp known
  obtain ⟨noted, answered⟩ := Prod.mk.inj parts
  have wrong : (FkItemType.str, FkItemType.sklist) ∈ final.casts := List.contains_iff_mem.mp noted
  refine ⟨final, reached, ?_, wrong, answered, fun respected => nomatch respected.casts _ wrong⟩
  have named : fkStr2upper (ascii "SET") ≠ ascii "EVAL" ∧
      fkStr2upper (ascii "ZADD") ≠ ascii "EVAL" := by decide
  simp only [zaddEvents, settingEvents, List.cons_append, List.nil_append, List.forall_mem_cons]
  exact ⟨trivial, trivial, named.1, trivial, trivial, trivial, named.2, trivial, trivial,
    trivial, nofun⟩

end Freekick.Refs
