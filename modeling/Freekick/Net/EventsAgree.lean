import Freekick.Net.Events

/-!
# Event states in every run

Between two callbacks every connection has a read event and a timer that were added, and a
write event that was added exactly when it says so; a connection that was closed has none.
From there each callback runs without an undefined operation and leaves the same behind, so
that in every state of a run the states of events and the containers agree.  A round may not
report a direction that no event was added for on the descriptor yet: then the entry of the
table is what `malloc` left there.
-/

namespace Freekick

open Lib Lib.Call FkEvmgr

/-! ## The events of a connection -/

/-- The descriptor of a connection with events, and whether its write event was added. -/
def EvConn.wanted (info : EvConn) : Option (Int × Bool) :=
  if info.fd = fkConnFakeFd then none else some (info.fd, info.writeAdded)

namespace FkEvmgr

variable {mgr before after : FkEvmgr IoevKey TmevKey} {conn : Nat} {fd : Int}

/-- The events of a connection are as wanted. -/
def Has (mgr : FkEvmgr IoevKey TmevKey) (conn : Nat) : Option (Int × Bool) → Prop
  | none =>
      mgr.ioevs.find (.read conn) = none ∧ mgr.ioevs.find (.write conn) = none ∧
        mgr.tmevs.find (.conn conn) = none
  | some (fd, writeAdded) =>
      (∃ stat, mgr.ioevs.find (.read conn) = some ⟨fd, fkIoevRead, stat⟩ ∧ stat ≠ .init) ∧
      (∃ stat, mgr.ioevs.find (.write conn) = some ⟨fd, fkIoevWrite, stat⟩ ∧
        (stat = .init ↔ writeAdded = false)) ∧
      ∃ tmev, mgr.tmevs.find (.conn conn) = some tmev ∧ tmev.stat ≠ .init

/-- Only the events of one connection are changed, and no list of waiting events grows. -/
structure Alters (conn : Nat) (before after : FkEvmgr IoevKey TmevKey) : Prop where
  ioevs : ∀ key, key ≠ .read conn → key ≠ .write conn → after.ioevs.find key = before.ioevs.find key
  tmevs : ∀ key, key ≠ .conn conn → after.tmevs.find key = before.tmevs.find key
  actIoev : after.actIoev.length ≤ before.actIoev.length
  expTmev : after.expTmev.length ≤ before.expTmev.length

theorem Alters.refl (conn : Nat) (mgr : FkEvmgr IoevKey TmevKey) : Alters conn mgr mgr :=
  ⟨fun _ _ _ => rfl, fun _ _ => rfl, Nat.le_refl _, Nat.le_refl _⟩

theorem Alters.trans {first second third : FkEvmgr IoevKey TmevKey} (one : Alters conn first second)
    (two : Alters conn second third) : Alters conn first third where
  ioevs := fun key notRead notWrite => (two.ioevs key notRead notWrite).trans
    (one.ioevs key notRead notWrite)
  tmevs := fun key apart => (two.tmevs key apart).trans (one.tmevs key apart)
  actIoev := Nat.le_trans two.actIoev one.actIoev
  expTmev := Nat.le_trans two.expTmev one.expTmev

theorem IoStep.alters {key : IoevKey} {new : Option FkIoevT} (step : IoStep before key new after)
    (own : key = .read conn ∨ key = .write conn) : Alters conn before after where
  ioevs := by
    intro other notRead notWrite
    rw [step.find, Function.update_of_ne]
    rintro rfl
    rcases own with same | same
    · exact notRead same
    · exact notWrite same
  tmevs := by
    intro other _
    rw [step.tmevs]
  actIoev := step.actIoev
  expTmev := Nat.le_of_eq (congrArg List.length step.expTmev)

theorem TmStep.alters {new : Option FkTmevT} (step : TmStep before (.conn conn) new after) :
    Alters conn before after where
  ioevs := by
    intro other _ _
    rw [step.ioevs]
  tmevs := by
    intro other apart
    rw [step.find, Function.update_of_ne apart]
  actIoev := Nat.le_of_eq (congrArg List.length step.actIoev)
  expTmev := step.expTmev

/-- The events of another connection stay as they are. -/
theorem Alters.has {other : Nat} {wanted : Option (Int × Bool)} (alters : Alters conn before after)
    (apart : other ≠ conn) (has : before.Has other wanted) : after.Has other wanted := by
  have read := alters.ioevs (.read other) (fun same => apart (IoevKey.read.inj same)) nofun
  have write := alters.ioevs (.write other) nofun fun same => apart (IoevKey.write.inj same)
  have timer := alters.tmevs (.conn other) fun same => apart (TmevKey.conn.inj same)
  cases wanted with
  | none =>
      unfold Has at has ⊢
      rw [read, write, timer]
      exact has
  | some pair =>
      obtain ⟨fd, writeAdded⟩ := pair
      unfold Has at has ⊢
      rw [read, write, timer]
      exact has

/-- Events change their states, and none is added or removed. -/
structure Restates (before after : FkEvmgr IoevKey TmevKey) : Prop where
  agrees : after.Agrees
  ioevs : ∀ key ioev, before.ioevs.find key = some ioev →
    ∃ changed, after.ioevs.find key = some changed ∧ changed.fd = ioev.fd ∧
      changed.type = ioev.type ∧ (changed.stat = .init ↔ ioev.stat = .init)
  noIoevs : ∀ key, before.ioevs.find key = none → after.ioevs.find key = none
  tmevs : ∀ key tmev, before.tmevs.find key = some tmev →
    ∃ changed, after.tmevs.find key = some changed ∧ (changed.stat = .init ↔ tmev.stat = .init)
  noTmevs : ∀ key, before.tmevs.find key = none → after.tmevs.find key = none

theorem Restates.has (restates : Restates before after) {wanted : Option (Int × Bool)}
    (has : before.Has conn wanted) :
    after.Has conn wanted := by
  cases wanted with
  | none =>
      obtain ⟨read, write, timer⟩ := has
      exact ⟨restates.noIoevs _ read, restates.noIoevs _ write, restates.noTmevs _ timer⟩
  | some pair =>
      obtain ⟨fd, writeAdded⟩ := pair
      obtain ⟨⟨readStat, read, readAdded⟩, ⟨writeStat, write, writeInit⟩, tmev, timer,
          timerAdded⟩ := has
      obtain ⟨⟨readFd, readType, readNew⟩, readAfter, sameReadFd, sameReadType, readIff⟩ :=
        restates.ioevs _ _ read
      obtain ⟨⟨writeFd, writeType, writeNew⟩, writeAfter, sameWriteFd, sameWriteType, writeIff⟩ :=
        restates.ioevs _ _ write
      obtain ⟨changed, timerAfter, timerIff⟩ := restates.tmevs _ _ timer
      obtain rfl : readFd = fd := sameReadFd
      obtain rfl : readType = fkIoevRead := sameReadType
      obtain rfl : writeFd = readFd := sameWriteFd
      obtain rfl : writeType = fkIoevWrite := sameWriteType
      exact ⟨⟨readNew, readAfter, fun init => readAdded (readIff.mp init)⟩,
        ⟨writeNew, writeAfter, writeIff.trans writeInit⟩,
        changed, timerAfter, fun init => timerAdded (timerIff.mp init)⟩

theorem Activates.restates (activates : Activates before after) : Restates before after where
  agrees := activates.agrees
  ioevs := activates.find
  noIoevs := activates.none
  tmevs := by
    intro key tmev found
    rw [activates.tmevs]
    exact ⟨tmev, found, Iff.rfl⟩
  noTmevs := by
    intro key absent
    rw [activates.tmevs]
    exact absent

theorem IoStep.restates {key : IoevKey} {ioev : FkIoevT} {stat : FkIoevStat}
    (found : before.ioevs.find key = some ioev)
    (step : IoStep before key (some { ioev with stat := stat }) after)
    (iff : stat = .init ↔ ioev.stat = .init) :
    Restates before after where
  agrees := step.agrees
  ioevs := by
    intro other old there
    rw [step.find]
    by_cases same : other = key
    · rw [same, found] at there
      cases there
      rw [same, Function.update_self]
      exact ⟨_, rfl, rfl, rfl, iff⟩
    · rw [Function.update_of_ne same]
      exact ⟨old, there, rfl, rfl, Iff.rfl⟩
  noIoevs := by
    intro other absent
    rw [step.find, Function.update_of_ne, absent]
    rintro rfl
    rw [found] at absent
    cases absent
  tmevs := by
    intro other old there
    rw [step.tmevs]
    exact ⟨old, there, Iff.rfl⟩
  noTmevs := by
    intro other absent
    rw [step.tmevs]
    exact absent

theorem restates_of_timer {key : TmevKey} {tmev new : FkTmevT}
    (found : before.tmevs.find key = some tmev) (agrees : after.Agrees)
    (find : after.tmevs.find = Function.update before.tmevs.find key (some new))
    (ioevs : after.ioevs = before.ioevs) (iff : new.stat = .init ↔ tmev.stat = .init) :
    Restates before after where
  agrees := agrees
  ioevs := by
    intro other old there
    rw [ioevs]
    exact ⟨old, there, rfl, rfl, Iff.rfl⟩
  noIoevs := by
    intro other absent
    rw [ioevs]
    exact absent
  tmevs := by
    intro other old there
    rw [find]
    by_cases same : other = key
    · rw [same, found] at there
      cases there
      rw [same, Function.update_self]
      exact ⟨_, rfl, iff⟩
    · rw [Function.update_of_ne same]
      exact ⟨old, there, Iff.rfl⟩
  noTmevs := by
    intro other absent
    rw [find, Function.update_of_ne, absent]
    rintro rfl
    rw [found] at absent
    cases absent

/-- No event that was added has the descriptor. -/
def Unused (mgr : FkEvmgr IoevKey TmevKey) (fd : Int) : Prop :=
  ∀ key ioev, mgr.ioevs.find key = some ioev → ioev.added = true → ioev.fd ≠ fd

theorem Unused.slots (unused : mgr.Unused fd) (agrees : mgr.Agrees) (key : IoevKey) :
    mgr.readEv fd ≠ some (some key) ∧ mgr.writeEv fd ≠ some (some key) := by
  constructor
  · intro entry
    obtain ⟨ioev, found, added, _, same⟩ := (agrees.io.read fd key).mp entry
    exact unused key ioev found added same
  · intro entry
    obtain ⟨ioev, found, added, _, same⟩ := (agrees.io.write fd key).mp entry
    exact unused key ioev found added same

theorem Unused.put {key : IoevKey} {ioev : FkIoevT} (unused : before.Unused fd)
    (step : IoStep before key (some ioev) after) (init : ioev.stat = .init) : after.Unused fd := by
  intro other found there added
  rw [step.find] at there
  by_cases same : other = key
  · rw [same, Function.update_self] at there
    cases there
    rw [FkIoevT.added, init] at added
    cases added
  · rw [Function.update_of_ne same] at there
    exact unused other found there added

end FkEvmgr

namespace EvSvr

variable {env : EvEnv} {svr : EvSvr} {conn : Nat} {fd : Int}

theorem read_ne_write {conn other : Nat} : IoevKey.read conn ≠ .write other := nofun

theorem write_ne_read {conn other : Nat} : IoevKey.write conn ≠ .read other := nofun

/-! ## Calls of the event manager -/

/-- Nothing but the event manager is changed, and only agreeing states are noted. -/
structure Stays (before after : EvSvr) : Prop where
  conns : after.conns = before.conns
  created : after.created = before.created
  connCnt : after.connCnt = before.connCnt
  opened : after.opened = before.opened
  seen : (∀ mgr ∈ before.states, mgr.Agrees) → ∀ mgr ∈ after.states, mgr.Agrees

theorem Stays.refl (svr : EvSvr) : Stays svr svr := ⟨rfl, rfl, rfl, rfl, id⟩

theorem Stays.trans {first second third : EvSvr} (one : Stays first second)
    (two : Stays second third) : Stays first third :=
  ⟨two.conns.trans one.conns, two.created.trans one.created, two.connCnt.trans one.connCnt,
    two.opened.trans one.opened, fun seen => two.seen (one.seen seen)⟩

theorem onMgr_stays {A : Type} {act : Act (FkEvmgr IoevKey TmevKey) A} {value : A}
    {mgr : FkEvmgr IoevKey TmevKey} (called : act svr.evmgr = .ok value mgr) (agrees : mgr.Agrees) :
    ∃ after, onMgr act svr = .ok value after ∧ Stays svr after ∧ after.evmgr = mgr := by
  refine ⟨{ svr with evmgr := mgr, states := mgr :: svr.states }, ?_, ⟨rfl, rfl, rfl, rfl, ?_⟩, rfl⟩
  · unfold onMgr
    rw [called]
  · intro seen other member
    rcases List.mem_cons.mp member with rfl | before
    · exact agrees
    · exact seen other before

theorem ask_stays {A : Type} (answers : Nat → A) (svr : EvSvr) :
    ∃ after, ask answers svr = .ok (answers svr.asked) after ∧ Stays svr after ∧
      after.evmgr = svr.evmgr :=
  ⟨_, rfl, ⟨rfl, rfl, rfl, rfl, id⟩, rfl⟩

theorem onMgr_io {A : Type} {act : Act (FkEvmgr IoevKey TmevKey) A} {value : A} {key : IoevKey}
    {new : Option FkIoevT} (stepped : ∃ mgr, act svr.evmgr = .ok value mgr ∧
      IoStep svr.evmgr key new mgr) :
    ∃ after, onMgr act svr = .ok value after ∧ Stays svr after ∧
      IoStep svr.evmgr key new after.evmgr := by
  obtain ⟨mgr, called, step⟩ := stepped
  obtain ⟨after, ran, stays, same⟩ := onMgr_stays called step.agrees
  exact ⟨after, ran, stays, same ▸ step⟩

theorem onMgr_tm {A : Type} {act : Act (FkEvmgr IoevKey TmevKey) A} {value : A} {key : TmevKey}
    {new : Option FkTmevT} (stepped : ∃ mgr, act svr.evmgr = .ok value mgr ∧
      TmStep svr.evmgr key new mgr) :
    ∃ after, onMgr act svr = .ok value after ∧ Stays svr after ∧
      TmStep svr.evmgr key new after.evmgr := by
  obtain ⟨mgr, called, step⟩ := stepped
  obtain ⟨after, ran, stays, same⟩ := onMgr_stays called step.agrees
  exact ⟨after, ran, stays, same ▸ step⟩

/-! ## Making and destroying the events of a connection -/

theorem createEvents_has (agrees : svr.evmgr.Agrees) (absent : svr.evmgr.Has conn none)
    (unused : svr.evmgr.Unused fd) :
    ∃ after, createEvents env conn fd svr = .ok () after ∧ Stays svr after ∧ after.evmgr.Agrees ∧
      after.evmgr.Has conn (some (fd, false)) ∧ Alters conn svr.evmgr after.evmgr := by
  obtain ⟨noRead, noWrite, noTimer⟩ := absent
  obtain ⟨one, ran1, stays1, step1⟩ :=
    onMgr_io (@fkIoevPut_step _ _ _ _ _ _ (fkIoevCreateT fd fkIoevRead) agrees noRead rfl)
  have read1 : one.evmgr.ioevs.find (.read conn) = some (fkIoevCreateT fd fkIoevRead) := by
    rw [step1.find, Function.update_self]
  have unused1 := unused.put step1 rfl
  obtain ⟨two, ran2, stays2, step2⟩ := onMgr_io (fkEvAddIoev_step step1.agrees read1 rfl
    (fun _ other => (unused1.slots step1.agrees other).1)
    fun _ other => (unused1.slots step1.agrees other).2)
  have write2 : two.evmgr.ioevs.find (.write conn) = none := by
    rw [step2.find, Function.update_of_ne write_ne_read, step1.find,
      Function.update_of_ne write_ne_read, noWrite]
  obtain ⟨three, ran3, stays3, step3⟩ :=
    onMgr_io (@fkIoevPut_step _ _ _ _ _ _ (fkIoevCreateT fd fkIoevWrite) step2.agrees write2 rfl)
  obtain ⟨four, ran4, stays4, same4⟩ := ask_stays env.clock three
  have agrees4 : four.evmgr.Agrees := same4 ▸ step3.agrees
  have timer4 : four.evmgr.tmevs.find (.conn conn) = none := by
    rw [same4, step3.tmevs, step2.tmevs, step1.tmevs, noTimer]
  obtain ⟨five, ran5, stays5, step5⟩ :=
    onMgr_tm (@fkTmevPut_step _ _ _ _ _ _ (fkTmevCreate (env.clock three.asked) 5000 .cycle)
      agrees4 timer4 rfl)
  have timer5 : five.evmgr.tmevs.find (.conn conn) = some
      (fkTmevCreate (env.clock three.asked) 5000 .cycle) := by
    rw [step5.find, Function.update_self]
  obtain ⟨six, ran6, stays6, step6⟩ := onMgr_tm (fkEvAddTmev_step step5.agrees timer5 rfl)
  have timer6 : six.evmgr.tmevs.find (.conn conn) =
      some { fkTmevCreate (env.clock three.asked) 5000 .cycle with stat := .pending } := by
    rw [step6.find, Function.update_self]
  refine ⟨six, ?_, ?_, step6.agrees,
    ⟨⟨.pending, ?_, nofun⟩, ⟨.init, ?_, fun _ => rfl, fun _ => rfl⟩, _, timer6, nofun⟩, ?_⟩
  · exact (Act.bind_ok ran1).trans
      ((Act.bind_ok ran2).trans ((Act.bind_ok ran3).trans ((Act.bind_ok ran4).trans
        ((Act.bind_ok ran5).trans (Act.bind_ok ran6)))))
  · exact stays1.trans (stays2.trans (stays3.trans (stays4.trans (stays5.trans stays6))))
  · rw [step6.ioevs, step5.ioevs, same4, step3.find, Function.update_of_ne read_ne_write,
      step2.find, Function.update_self]
    rfl
  · rw [step6.ioevs, step5.ioevs, same4, step3.find, Function.update_self]
    rfl
  · have alters3 := (step1.alters (.inl rfl)).trans
      ((step2.alters (.inl rfl)).trans (step3.alters (.inr rfl)))
    rw [← same4] at alters3
    exact alters3.trans (step5.alters.trans step6.alters)

theorem destroyEvents_has {writeAdded : Bool} (agrees : svr.evmgr.Agrees)
    (has : svr.evmgr.Has conn (some (fd, writeAdded))) :
    ∃ after, destroyEvents conn writeAdded svr = .ok () after ∧ Stays svr after ∧
      after.evmgr.Agrees ∧ after.evmgr.Has conn none ∧ Alters conn svr.evmgr after.evmgr := by
  obtain ⟨⟨readStat, read, readAdded⟩, ⟨writeStat, write, writeInit⟩, tmev, timer, timerAdded⟩ :=
    has
  obtain ⟨one, ran1, stays1, step1⟩ := onMgr_io (fkEvRemoveIoev_step agrees read readAdded)
  have read1 : one.evmgr.ioevs.find (.read conn) = some ⟨fd, fkIoevRead, .init⟩ := by
    rw [step1.find, Function.update_self]
  obtain ⟨two, ran2, stays2, step2⟩ := onMgr_io (fkIoevDestroy_step step1.agrees read1 rfl)
  have write2 : two.evmgr.ioevs.find (.write conn) = some ⟨fd, fkIoevWrite, writeStat⟩ := by
    rw [step2.find, Function.update_of_ne write_ne_read, step1.find,
      Function.update_of_ne write_ne_read, write]
  have removed : ∃ three, Act.onlyIf (writeAdded = true)
      (onMgr (FkEvmgr.fkEvRemoveIoev (.write conn)) >>= fun _ => pure ())
      two = .ok () three ∧ Stays two three ∧ three.evmgr.Agrees ∧
        Alters conn two.evmgr three.evmgr ∧ three.evmgr.ioevs.find =
        Function.update two.evmgr.ioevs.find (.write conn) (some ⟨fd, fkIoevWrite, .init⟩) ∧
        three.evmgr.tmevs = two.evmgr.tmevs := by
    cases writeAdded with
    | true =>
        have added : writeStat ≠ .init := fun init => absurd (writeInit.mp init) (by decide)
        obtain ⟨three, ran3, stays3, step3⟩ :=
          onMgr_io (fkEvRemoveIoev_step step2.agrees write2 added)
        exact ⟨three, Act.bind_ok ran3, stays3, step3.agrees, step3.alters (.inr rfl), step3.find,
          step3.tmevs⟩
    | false =>
        obtain rfl := writeInit.mpr rfl
        refine ⟨two, rfl, .refl two, step2.agrees, .refl conn _, ?_, rfl⟩
        rw [← write2, Function.update_eq_self]
  obtain ⟨three, ran3, stays3, agrees3, alters3, find3, tmevs3⟩ := removed
  have write3 : three.evmgr.ioevs.find (.write conn) = some ⟨fd, fkIoevWrite, .init⟩ := by
    rw [find3, Function.update_self]
  obtain ⟨four, ran4, stays4, step4⟩ := onMgr_io (fkIoevDestroy_step agrees3 write3 rfl)
  have timer4 : four.evmgr.tmevs.find (.conn conn) = some tmev := by
    rw [step4.tmevs, tmevs3, step2.tmevs, step1.tmevs, timer]
  obtain ⟨five, ran5, stays5, step5⟩ :=
    onMgr_tm (fkEvRemoveTmev_step step4.agrees timer4 timerAdded)
  have timer5 : five.evmgr.tmevs.find (.conn conn) = some { tmev with stat := .init } := by
    rw [step5.find, Function.update_self]
  obtain ⟨six, ran6, stays6, step6⟩ := onMgr_tm (fkTmevDestroy_step step5.agrees timer5 rfl)
  refine ⟨six, ?_, ?_, step6.agrees, ⟨?_, ?_, ?_⟩, ?_⟩
  · exact (Act.bind_ok ran1).trans
      ((Act.bind_ok ran2).trans ((Act.bind_ok ran3).trans ((Act.bind_ok ran4).trans
        ((Act.bind_ok ran5).trans ran6))))
  · exact stays1.trans (stays2.trans (stays3.trans (stays4.trans (stays5.trans stays6))))
  · rw [step6.ioevs, step5.ioevs, step4.find, Function.update_of_ne read_ne_write, find3,
      Function.update_of_ne read_ne_write, step2.find, Function.update_self]
  · rw [step6.ioevs, step5.ioevs, step4.find, Function.update_self]
  · rw [step6.find, Function.update_self]
  · exact (step1.alters (.inl rfl)).trans
      ((step2.alters (.inl rfl)).trans (alters3.trans ((step4.alters (.inr rfl)).trans
        (step5.alters.trans step6.alters))))

/-! ## Between two callbacks -/

/-- Every noted state agrees, the listening event is at its descriptor, every connection has
the events that it should have, and no two connections share a descriptor. -/
structure Sound (listenFd : Int) (svr : EvSvr) : Prop where
  seen : ∀ mgr ∈ svr.states, mgr.Agrees
  agrees : svr.evmgr.Agrees
  listen : ∀ ioev, svr.evmgr.ioevs.find .listen = some ioev → ioev.fd = listenFd
  listening : listenFd ∈ svr.opened
  has : ∀ conn, svr.evmgr.Has conn ((svr.conns conn).bind EvConn.wanted)
  fresh : ∀ conn, svr.created ≤ conn → svr.conns conn = none
  opened : ∀ conn info, svr.conns conn = some info → info.fd ≠ fkConnFakeFd → info.fd ∈ svr.opened ∧
    info.fd ≠ listenFd
  apart : ∀ conn other info old, svr.conns conn = some info → svr.conns other = some old →
    info.fd ≠ fkConnFakeFd → old.fd = info.fd → other = conn

/-- The server is sound after a step, and no list of waiting events has grown. -/
structure Safely (listenFd : Int) (before after : EvSvr) : Prop where
  sound : after.Sound listenFd
  actIoev : after.evmgr.actIoev.length ≤ before.evmgr.actIoev.length
  expTmev : after.evmgr.expTmev.length ≤ before.evmgr.expTmev.length

section Sound

variable {listenFd : Int} {before after : EvSvr} {info : EvConn}

theorem Safely.refl (sound : svr.Sound listenFd) : Safely listenFd svr svr :=
  ⟨sound, Nat.le_refl _, Nat.le_refl _⟩

theorem Safely.trans {first second third : EvSvr} (one : Safely listenFd first second)
    (two : Safely listenFd second third) :
    Safely listenFd first third :=
  ⟨two.sound, Nat.le_trans two.actIoev one.actIoev, Nat.le_trans two.expTmev one.expTmev⟩

/-- A connection with a descriptor has its events. -/
theorem Sound.hasReal (sound : svr.Sound listenFd) (found : svr.conns conn = some info)
    (real : info.fd ≠ fkConnFakeFd) :
    svr.evmgr.Has conn (some (info.fd, info.writeAdded)) := by
  have has := sound.has conn
  rw [found, Option.bind_some, EvConn.wanted, if_neg real] at has
  exact has

/-- An event of a connection is there because the connection is. -/
theorem Sound.owner (sound : svr.Sound listenFd)
    (event : ¬ svr.evmgr.Has conn none) :
    ∃ info, svr.conns conn = some info ∧ info.fd ≠ fkConnFakeFd := by
  have has := sound.has conn
  cases found : svr.conns conn with
  | none =>
      rw [found] at has
      exact (event has).elim
  | some info =>
      refine ⟨info, rfl, fun fake => event ?_⟩
      rw [found, Option.bind_some, EvConn.wanted, if_pos fake] at has
      exact has

/-- The descriptor of an event of a connection is the one of the connection. -/
theorem Sound.fd_of_read (sound : svr.Sound listenFd) {ioev : FkIoevT}
    (found : svr.evmgr.ioevs.find (.read conn) = some ioev) :
    ∃ info, svr.conns conn = some info ∧ info.fd ≠ fkConnFakeFd ∧ ioev.fd = info.fd ∧
      ioev.type = fkIoevRead := by
  obtain ⟨info, there, real⟩ := sound.owner fun has => by
    rw [has.1] at found
    cases found
  obtain ⟨⟨stat, read, _⟩, _⟩ := sound.hasReal there real
  rw [read] at found
  cases found
  exact ⟨info, there, real, rfl, rfl⟩

theorem Sound.fd_of_write (sound : svr.Sound listenFd) {ioev : FkIoevT}
    (found : svr.evmgr.ioevs.find (.write conn) = some ioev) :
    ∃ info, svr.conns conn = some info ∧ info.fd ≠ fkConnFakeFd ∧ ioev.fd = info.fd ∧
      (ioev.stat = .init ↔ info.writeAdded = false) := by
  obtain ⟨info, there, real⟩ := sound.owner fun has => by
    rw [has.2.1] at found
    cases found
  obtain ⟨_, ⟨stat, write, init⟩, _⟩ := sound.hasReal there real
  rw [write] at found
  cases found
  exact ⟨info, there, real, rfl, init⟩

theorem Sound.conn_of_timer (sound : svr.Sound listenFd) {tmev : FkTmevT}
    (found : svr.evmgr.tmevs.find (.conn conn) = some tmev) :
    ∃ info, svr.conns conn = some info ∧ info.fd ≠ fkConnFakeFd := by
  refine sound.owner fun has => ?_
  rw [has.2.2] at found
  cases found

/-- A descriptor that is of no connection and not the listening one has no event. -/
theorem Sound.unused (sound : svr.Sound listenFd) (notListen : fd ≠ listenFd)
    (free : ∀ conn info, svr.conns conn = some info → info.fd ≠ fd) : svr.evmgr.Unused fd := by
  intro key ioev found _ same
  cases key with
  | listen => exact notListen (same ▸ sound.listen ioev found)
  | read conn =>
      obtain ⟨info, there, _, equal, _⟩ := sound.fd_of_read found
      exact free conn info there (equal ▸ same)
  | write conn =>
      obtain ⟨info, there, _, equal, _⟩ := sound.fd_of_write found
      exact free conn info there (equal ▸ same)

/-- The write entry of a connection is free until its write event is added. -/
theorem Sound.writeFree (sound : svr.Sound listenFd) (found : svr.conns conn = some info)
    (real : info.fd ≠ fkConnFakeFd) (notAdded : info.writeAdded = false) (key : IoevKey) :
    svr.evmgr.writeEv info.fd ≠ some (some key) := by
  intro entry
  obtain ⟨ioev, there, added, typed, same⟩ := (sound.agrees.io.write info.fd key).mp entry
  cases key with
  | listen => exact (sound.opened conn info found real).2 (same ▸ sound.listen ioev there)
  | read other =>
      obtain ⟨_, _, _, _, read⟩ := sound.fd_of_read there
      rw [read] at typed
      exact typed rfl
  | write other =>
      obtain ⟨old, foundOld, _, equal, init⟩ := sound.fd_of_write there
      have here := sound.apart conn other info old found foundOld real (equal ▸ same)
      rw [here, found] at foundOld
      cases foundOld
      exact of_decide_eq_true added (init.mpr notAdded)

/-- One connection is changed, made or destroyed. -/
theorem Sound.update (sound : before.Sound listenFd) {new : Option EvConn}
    (seen : ∀ mgr ∈ after.states, mgr.Agrees) (agrees : after.evmgr.Agrees)
    (alters : Alters conn before.evmgr after.evmgr)
    (conns : after.conns = Function.update before.conns conn new)
    (has : after.evmgr.Has conn (new.bind EvConn.wanted))
    (created : before.created ≤ after.created) (made : conn < after.created)
    (listening : listenFd ∈ after.opened)
    (kept : ∀ other old, other ≠ conn → before.conns other = some old → old.fd ≠ fkConnFakeFd →
      old.fd ∈ after.opened)
    (own : ∀ info, new = some info → info.fd ≠ fkConnFakeFd → info.fd ∈ after.opened ∧
      info.fd ≠ listenFd)
    (free : ∀ info other old, new = some info → info.fd ≠ fkConnFakeFd → other ≠ conn →
      before.conns other = some old → old.fd ≠ info.fd) : Safely listenFd before after := by
  refine ⟨⟨seen, agrees, ?_, listening, ?_, ?_, ?_, ?_⟩, alters.actIoev, alters.expTmev⟩
  · intro ioev found
    rw [alters.ioevs .listen nofun nofun] at found
    exact sound.listen ioev found
  · intro other
    rw [conns]
    by_cases same : other = conn
    · rw [same, Function.update_self]
      exact has
    · rw [Function.update_of_ne same]
      exact alters.has same (sound.has other)
  · intro other beyond
    rw [conns, Function.update_of_ne (by omega)]
    exact sound.fresh other (Nat.le_trans created beyond)
  · intro other info found real
    rw [conns] at found
    by_cases same : other = conn
    · rw [same, Function.update_self] at found
      exact own info found real
    · rw [Function.update_of_ne same] at found
      exact ⟨kept other info same found real, (sound.opened other info found real).2⟩
  · intro one two info old foundOne foundTwo real equal
    rw [conns] at foundOne foundTwo
    by_cases sameOne : one = conn
    · by_cases sameTwo : two = conn
      · exact sameTwo.trans sameOne.symm
      · rw [sameOne, Function.update_self] at foundOne
        rw [Function.update_of_ne sameTwo] at foundTwo
        exact (free info two old foundOne real sameTwo foundTwo equal).elim
    · rw [Function.update_of_ne sameOne] at foundOne
      by_cases sameTwo : two = conn
      · rw [sameTwo, Function.update_self] at foundTwo
        exact (free old one info foundTwo (by rw [equal]; exact real) sameOne foundOne
          equal.symm).elim
      · rw [Function.update_of_ne sameTwo] at foundTwo
        exact sound.apart one two info old foundOne foundTwo real equal

end Sound

/-! ## Connections -/

section Connections

variable {listenFd : Int} {info : EvConn}

theorem Sound.absent (sound : svr.Sound listenFd) (none : svr.conns conn = none) :
    svr.evmgr.Has conn Option.none := by
  have has := sound.has conn
  rw [none] at has
  exact has

/-- A connection is made of no descriptor, or of one that is open and that nothing else has. -/
theorem fkConnCreateEv_safely (sound : svr.Sound listenFd)
    (open' : fd ≠ fkConnFakeFd → fd ∈ svr.opened ∧ fd ≠ listenFd ∧
      ∀ conn info, svr.conns conn = some info → info.fd ≠ fd) :
    ∃ after, fkConnCreateEv env fd svr = .ok () after ∧ Safely listenFd svr after := by
  have none := sound.fresh svr.created (Nat.le_refl _)
  have absent := sound.absent none
  have events : ∃ two, Act.onlyIf (fd ≠ fkConnFakeFd) (createEvents env svr.created fd)
      { svr with created := svr.created + 1 } = .ok () two ∧ Stays
      { svr with created := svr.created + 1 } two ∧
        two.evmgr.Agrees ∧ Alters svr.created svr.evmgr two.evmgr ∧
        two.evmgr.Has svr.created
          (if fd = fkConnFakeFd then Option.none else some (fd, false)) := by
    unfold Act.onlyIf
    by_cases fake : fd = fkConnFakeFd
    · rw [if_neg (not_not_intro fake), if_pos fake]
      exact ⟨_, rfl, .refl _, sound.agrees, .refl _ _, absent⟩
    · obtain ⟨_, notListen, free⟩ := open' fake
      rw [if_pos fake, if_neg fake]
      obtain ⟨two, ran, stays, agrees, has, alters⟩ :=
        @createEvents_has env { svr with created := svr.created + 1 }
          svr.created fd sound.agrees absent (sound.unused notListen free)
      exact ⟨two, ran, stays, agrees, alters, has⟩
  obtain ⟨two, ran2, stays2, agrees, alters, has⟩ := events
  obtain ⟨three, ran3, stays3, same⟩ := ask_stays env.time two
  have stays := stays2.trans stays3
  refine ⟨_, (Act.bind_ok ran2).trans ((Act.bind_ok ran3).trans rfl), ?_⟩
  · rw [← same] at agrees alters has
    refine sound.update (stays.seen sound.seen) agrees alters
      (congrArg (Function.update · _ _) stays.conns) has ?_ ?_ ?_ ?_ ?_ ?_
    · exact Nat.le_trans (Nat.le_succ _) (Nat.le_of_eq stays.created.symm)
    · exact Nat.lt_of_lt_of_eq (Nat.lt_succ_self _) stays.created.symm
    · exact stays.opened ▸ sound.listening
    · intro other old _ found real
      exact stays.opened ▸ (sound.opened other old found real).1
    · intro made equal real
      cases equal
      obtain ⟨isOpen, notListen, _⟩ := open' real
      exact ⟨stays.opened ▸ isOpen, notListen⟩
    · intro made other old equal real _ found
      cases equal
      exact (open' real).2.2 other old found

theorem Sound.recount (sound : svr.Sound listenFd) (connCnt : Int) : Sound listenFd
    { svr with connCnt := connCnt } :=
  ⟨sound.seen, sound.agrees, sound.listen, sound.listening, sound.has, sound.fresh, sound.opened,
    sound.apart⟩

theorem fkSvrAddConnEv_safely (sound : svr.Sound listenFd)
    (open' : fd ≠ fkConnFakeFd → fd ∈ svr.opened ∧ fd ≠ listenFd ∧
      ∀ conn info, svr.conns conn = some info → info.fd ≠ fd) :
    ∃ after, fkSvrAddConnEv env fd svr = .ok () after ∧ Safely listenFd svr after := by
  obtain ⟨after, ran, safely⟩ := @fkConnCreateEv_safely env _ _ _ sound open'
  exact ⟨_, (Act.bind_ok ran).trans rfl, safely.sound.recount _, safely.actIoev, safely.expTmev⟩

theorem fkConnDestroyEv_safely (sound : svr.Sound listenFd) (found : svr.conns conn = some info)
    (real : info.fd ≠ fkConnFakeFd) :
    ∃ after, fkConnDestroyEv conn svr = .ok () after ∧ Safely listenFd svr after := by
  obtain ⟨two, ran, stays, agrees, has, alters⟩ :=
    destroyEvents_has sound.agrees (sound.hasReal found real)
  have below : conn < svr.created := by
    by_contra beyond
    rw [sound.fresh conn (Nat.le_of_not_lt beyond)] at found
    cases found
  have looked : connOf conn svr = .ok info svr := by
    unfold connOf
    rw [found]
  have destroyed : Act.onlyIf (info.fd ≠ fkConnFakeFd) (destroyEvents conn info.writeAdded) svr =
      .ok () two := (if_pos real).trans ran
  have closed : Act.onlyIf (info.fd ≠ fkConnFakeFd) (close info.fd) two = .ok ()
      { two with opened := two.opened.erase info.fd } :=
    if_pos real
  refine ⟨_, (Act.bind_ok looked).trans
    ((Act.bind_ok destroyed).trans ((Act.bind_ok closed).trans rfl)), ?_⟩
  refine @Sound.update conn listenFd svr _ sound none (stays.seen sound.seen) agrees alters
    (congrArg (Function.update · _ _) stays.conns) has
    (Nat.le_of_eq stays.created.symm)
      (Nat.lt_of_lt_of_eq below stays.created.symm) ?_ ?_ nofun nofun
  · rw [stays.opened]
    exact Finset.mem_erase_of_ne_of_mem (sound.opened conn info found real).2.symm sound.listening
  · intro other old apart there oldReal
    rw [stays.opened]
    refine Finset.mem_erase_of_ne_of_mem (fun equal => apart ?_)
      (sound.opened other old there oldReal).1
    exact sound.apart conn other info old found there real equal

theorem fkSvrRemoveConnEv_safely (sound : svr.Sound listenFd) (found : svr.conns conn = some info)
    (real : info.fd ≠ fkConnFakeFd) :
    ∃ after, fkSvrRemoveConnEv conn svr = .ok () after ∧ Safely listenFd svr after := by
  obtain ⟨after, ran, safely⟩ := fkConnDestroyEv_safely (sound.recount (svr.connCnt - 1)) found real
  exact ⟨after, ran, safely.sound, safely.actIoev, safely.expTmev⟩

/-- A connection keeps its descriptor. -/
theorem Sound.reset {after : EvSvr} (sound : svr.Sound listenFd)
    (found : svr.conns conn = some info) (real : info.fd ≠ fkConnFakeFd)
    (stays : Stays svr after) (agrees : after.evmgr.Agrees)
    (alters : Alters conn svr.evmgr after.evmgr) {new : EvConn}
    (fd : new.fd = info.fd) (has : after.evmgr.Has conn (some (new.fd, new.writeAdded))) :
    Safely listenFd svr { after with conns := Function.update after.conns conn (some new) } := by
  have below : conn < svr.created := by
    by_contra beyond
    rw [sound.fresh conn (Nat.le_of_not_lt beyond)] at found
    cases found
  have newReal : new.fd ≠ fkConnFakeFd := fd ▸ real
  refine @Sound.update conn listenFd svr _ sound (some new) (stays.seen sound.seen) agrees alters
    (congrArg (Function.update · _ _) stays.conns) ?_ (Nat.le_of_eq stays.created.symm)
    (Nat.lt_of_lt_of_eq below stays.created.symm) (stays.opened ▸ sound.listening) ?_ ?_ ?_
  · rw [Option.bind_some, EvConn.wanted, if_neg newReal]
    exact has
  · intro other old _ there oldReal
    exact stays.opened ▸ (sound.opened other old there oldReal).1
  · intro made equal _
    cases equal
    obtain ⟨isOpen, notListen⟩ := sound.opened conn info found real
    exact ⟨stays.opened ▸ fd ▸ isOpen, fd ▸ notListen⟩
  · intro made other old equal _ apart there same
    cases equal
    exact apart (sound.apart conn other info old found there real (same.trans fd))

end Connections

/-! ## Callbacks of I/O events -/

section IoCallbacks

variable {listenFd : Int} {info : EvConn}

theorem acceptOne_safely (sound : svr.Sound listenFd) (fd : Int) :
    ∃ after, acceptOne env fd svr = .ok () after ∧ Safely listenFd svr after := by
  unfold acceptOne
  split
  · next new =>
      have accepted : Sound listenFd { svr with opened := insert fd svr.opened } :=
        ⟨sound.seen, sound.agrees, sound.listen, Finset.mem_insert_of_mem sound.listening,
          sound.has, sound.fresh, fun conn info found real =>
            ⟨Finset.mem_insert_of_mem (sound.opened conn info found real).1,
              (sound.opened conn info found real).2⟩,
          sound.apart⟩
      dsimp only
      split
      · -- The descriptor is closed again.
        refine ⟨svr, ?_, .refl sound⟩
        change Outcome.ok () { svr with opened := (insert fd svr.opened).erase fd } = _
        rw [Finset.erase_insert new.2]
      · obtain ⟨after, ran, safely⟩ := @fkSvrAddConnEv_safely env _ fd listenFd accepted fun real =>
          ⟨Finset.mem_insert_self .., fun same => new.2 (same ▸ sound.listening),
            fun conn info found same =>
            new.2 (same ▸ (sound.opened conn info found (same ▸ real)).1)⟩
        exact ⟨after, ran, safely.sound, safely.actIoev, safely.expTmev⟩
  · exact ⟨svr, rfl, .refl sound⟩

theorem listenLoop_safely (outcomes : List Accept) (ordinary : Ordinary outcomes)
    (sound : svr.Sound listenFd) :
    ∃ after, listenLoop env outcomes svr = .ok () after ∧ Safely listenFd svr after := by
  induction outcomes generalizing svr with
  | nil => exact ⟨svr, rfl, .refl sound⟩
  | cons outcome rest ih =>
      cases outcome with
      | eintr => exact ih ordinary sound
      | eagain => exact ⟨svr, rfl, .refl sound⟩
      | fd fd =>
          obtain ⟨middle, first, one⟩ := acceptOne_safely sound fd
          obtain ⟨after, more, two⟩ := ih ordinary one.sound
          exact ⟨after, (Act.bind_ok first).trans more, one.trans two⟩
      | other => exact ordinary.elim

theorem Sound.ask {A : Type} {answers : Nat → A} {after : EvSvr} {value : A}
    (sound : svr.Sound listenFd) (asked : EvSvr.ask answers svr = .ok value after) :
    Safely listenFd svr after := by
  cases asked
  exact ⟨⟨sound.seen, sound.agrees, sound.listen, sound.listening, sound.has, sound.fresh,
    sound.opened, sound.apart⟩, Nat.le_refl _, Nat.le_refl _⟩

theorem connOf_some (found : svr.conns conn = some info) : connOf conn svr = .ok info svr := by
  unfold connOf
  rw [found]

theorem fkConnSendRspEv_safely (sound : svr.Sound listenFd) (found : svr.conns conn = some info)
    (real : info.fd ≠ fkConnFakeFd) :
    ∃ after, fkConnSendRspEv conn svr = .ok () after ∧ Safely listenFd svr after := by
  have goes : fkConnSendRspEv conn svr = _ := Act.bind_ok (connOf_some found)
  rw [goes]
  split
  · next more =>
      have has := sound.hasReal found real
      obtain ⟨read, ⟨stat, write, init⟩, timer⟩ := has
      have notRead : fkIoevWrite &&& fkIoevRead = 0 := by decide
      obtain ⟨after, ran, stays, step⟩ :=
        onMgr_io (fkEvAddIoev_step sound.agrees write (init.mpr more.2)
          (fun typed => (typed notRead).elim) fun _ => sound.writeFree found real more.2)
      refine ⟨_, (Act.bind_ok ran).trans rfl, sound.reset found real stays step.agrees
        (step.alters (.inr rfl)) rfl ?_⟩
      refine ⟨?_, ⟨.pending, ?_, iff_of_false nofun nofun⟩, ?_⟩
      · rw [step.find, Function.update_of_ne read_ne_write]
        exact read
      · rw [step.find, Function.update_self]
      · rw [step.tmevs]
        exact timer
  · exact ⟨svr, rfl, .refl sound⟩

theorem fkConnReadCbEv_safely (sound : svr.Sound listenFd) (found : svr.conns conn = some info)
    (real : info.fd ≠ fkConnFakeFd) :
    ∃ after, fkConnReadCbEv env conn svr = .ok () after ∧ Safely listenFd svr after := by
  obtain ⟨asking, ran, stays, same⟩ := ask_stays env.reads svr
  have asked := sound.ask ran
  have foundAsking : asking.conns conn = some info := by
    rw [stays.conns, found]
  have goes : fkConnReadCbEv env conn svr = _ :=
    (Act.bind_ok (connOf_some found)).trans (Act.bind_ok ran)
  rw [goes]
  cases env.reads svr.asked with
  | closed =>
      obtain ⟨after, removed, safely⟩ := fkSvrRemoveConnEv_safely asked.sound foundAsking real
      exact ⟨after, removed, asked.trans safely⟩
  | served lastRecv wbuf =>
      have sameFd : ({ info with lastRecv := lastRecv, wbuf := wbuf } : EvConn).fd = info.fd := rfl
      have has := asked.sound.hasReal foundAsking real
      have reset := asked.sound.reset foundAsking real (.refl _) asked.sound.agrees
        (.refl conn _) sameFd has
      obtain ⟨after, sent, safely⟩ :=
        fkConnSendRspEv_safely reset.sound (Function.update_self ..) real
      exact ⟨after, sent, asked.trans (reset.trans safely)⟩

theorem fkConnWriteCbEv_safely (sound : svr.Sound listenFd) (found : svr.conns conn = some info)
    (real : info.fd ≠ fkConnFakeFd) (added : info.writeAdded = true) :
    ∃ after, fkConnWriteCbEv env conn svr = .ok () after ∧ Safely listenFd svr after := by
  obtain ⟨asking, ran, stays, same⟩ := ask_stays env.sends svr
  have asked := sound.ask ran
  have foundAsking : asking.conns conn = some info := by
    rw [stays.conns, found]
  have goes : fkConnWriteCbEv env conn svr = _ :=
    (Act.bind_ok (connOf_some found)).trans (Act.bind_ok ran)
  rw [goes]
  have has := asked.sound.hasReal foundAsking real
  split
  · obtain ⟨after, removed, safely⟩ := fkSvrRemoveConnEv_safely asked.sound foundAsking real
    exact ⟨after, removed, asked.trans safely⟩
  · split
    · obtain ⟨read, ⟨stat, write, init⟩, timer⟩ := has
      have statAdded : stat ≠ .init :=
        fun isInit => absurd (init.mp isInit) (by rw [added]; exact nofun)
      obtain ⟨after, removed, staysAfter, step⟩ :=
        onMgr_io (fkEvRemoveIoev_step asked.sound.agrees write statAdded)
      refine ⟨_, (Act.bind_ok removed).trans rfl, asked.trans
        (asked.sound.reset foundAsking real staysAfter step.agrees (step.alters (.inr rfl)) rfl ?_)⟩
      refine ⟨?_, ⟨.init, ?_, iff_of_true rfl rfl⟩, ?_⟩
      · rw [step.find, Function.update_of_ne read_ne_write]
        exact read
      · rw [step.find, Function.update_self]
      · rw [step.tmevs]
        exact timer
    · exact ⟨_, rfl, asked.trans
        (asked.sound.reset foundAsking real (.refl _) asked.sound.agrees (.refl conn _) rfl has)⟩

/-- The callback of an event that was added. -/
theorem iocb_safely (ordinary : ∀ n, Ordinary (env.accepts n)) (sound : svr.Sound listenFd)
    {key : IoevKey} {ioev : FkIoevT} (found : svr.evmgr.ioevs.find key = some ioev)
    (added : ioev.stat ≠ .init) :
    ∃ after, iocb env key svr = .ok () after ∧ Safely listenFd svr after := by
  cases key with
  | listen =>
      obtain ⟨asking, ran, _⟩ := ask_stays env.accepts svr
      have asked := sound.ask ran
      obtain ⟨after, looped, safely⟩ := listenLoop_safely (env.accepts svr.asked)
        (ordinary svr.asked) asked.sound
      exact ⟨after, (Act.bind_ok ran).trans looped, asked.trans safely⟩
  | read conn =>
      obtain ⟨info, there, real, _⟩ := sound.fd_of_read found
      exact fkConnReadCbEv_safely sound there real
  | write conn =>
      obtain ⟨info, there, real, _, init⟩ := sound.fd_of_write found
      refine fkConnWriteCbEv_safely sound there real ?_
      cases writeAdded : info.writeAdded with
      | true => rfl
      | false => exact (added (init.mpr writeAdded)).elim

end IoCallbacks

/-! ## Callbacks of timers -/

section TmCallbacks

variable {listenFd : Int}

/-- The event manager changes, and the connections stay. -/
theorem Sound.stays {after : EvSvr} (sound : svr.Sound listenFd) (stays : Stays svr after)
    (agrees : after.evmgr.Agrees)
    (listen : ∀ ioev, after.evmgr.ioevs.find .listen = some ioev → ioev.fd = listenFd)
    (has : ∀ conn, after.evmgr.Has conn ((svr.conns conn).bind EvConn.wanted)) :
    after.Sound listenFd where
  seen := stays.seen sound.seen
  agrees := agrees
  listen := listen
  listening := stays.opened ▸ sound.listening
  has := stays.conns ▸ has
  fresh := by
    rw [stays.conns, stays.created]
    exact sound.fresh
  opened := by
    rw [stays.conns, stays.opened]
    exact sound.opened
  apart := by
    rw [stays.conns]
    exact sound.apart

/-- A timer of the server is changed. -/
theorem Sound.svrTimer {after : EvSvr} {key : TmevKey} {new : Option FkTmevT}
    (sound : svr.Sound listenFd) (stays : Stays svr after)
    (step : TmStep svr.evmgr key new after.evmgr) (apart : ∀ conn, key ≠ .conn conn) :
    Safely listenFd svr after := by
  refine ⟨sound.stays stays step.agrees ?_ fun conn => ?_,
    Nat.le_of_eq (congrArg List.length step.actIoev), step.expTmev⟩
  · rw [step.ioevs]
    exact sound.listen
  · have has := sound.has conn
    have timer : after.evmgr.tmevs.find (.conn conn) = svr.evmgr.tmevs.find (.conn conn) := by
      rw [step.find, Function.update_of_ne (apart conn).symm]
    unfold Has at has ⊢
    rw [step.ioevs, timer]
    exact has

/-- The callback of a timer that was added; when the timer is used again it is as before. -/
theorem tmcb_safely (sound : svr.Sound listenFd) {key : TmevKey} {tmev : FkTmevT}
    (found : svr.evmgr.tmevs.find key = some tmev)
    (added : tmev.stat ≠ .init) :
    ∃ again after, tmcb env key svr = .ok again after ∧
      Safely listenFd svr after ∧ (again = true → after.evmgr = svr.evmgr) := by
  cases key with
  | svr => exact ⟨true, svr, rfl, .refl sound, fun _ => rfl⟩
  | svr2 =>
      obtain ⟨after, removed, stays, step⟩ :=
        onMgr_tm (fkEvRemoveTmev_step sound.agrees found added)
      exact ⟨false, after, Act.bind_ok removed, sound.svrTimer stays step nofun, nofun⟩
  | conn conn =>
      obtain ⟨info, there, real⟩ := sound.conn_of_timer found
      obtain ⟨asking, ran, stays, same⟩ := ask_stays env.time svr
      have asked := sound.ask ran
      have goes : tmcb env (.conn conn) svr = _ :=
        (Act.bind_ok (connOf_some there)).trans (Act.bind_ok ran)
      rw [goes]
      split
      · obtain ⟨after, removed, safely⟩ :=
          fkSvrRemoveConnEv_safely asked.sound (stays.conns ▸ there) real
        exact ⟨false, after, (Act.bind_ok removed).trans rfl, asked.trans safely, nofun⟩
      · exact ⟨true, asking, rfl, asked, fun _ => same⟩

end TmCallbacks

/-! ## The loops -/

/-- Every direction that the multiplexer reports is one that an event was added for, on this
descriptor, at some time before the round. -/
def ReportKnown (svr : EvSvr) (reported : Option (List (Int × UInt8))) : Prop :=
  ∀ activations ∈ reported, ∀ activation ∈ activations,
    svr.evmgr.EntriesSet activation.1 activation.2

instance (svr : EvSvr) (reported : Option (List (Int × UInt8))) :
    Decidable (svr.ReportKnown reported) :=
  inferInstanceAs (Decidable (∀ activations ∈ reported, _))

/-- So it is in every round of a run. -/
def ReportsKnown (env : EvEnv) (listenFd : Int) (rounds : List (Option (List (Int × UInt8)))) :
    Prop :=
  Act.Leaves (fkSvrInitEv env listenFd) (start listenFd)
    (Act.Along (fkEvDispatch env) ReportKnown rounds)

instance (env : EvEnv) (listenFd : Int) (rounds : List (Option (List (Int × UInt8)))) :
    Decidable (ReportsKnown env listenFd rounds) :=
  inferInstanceAs (Decidable (Act.Leaves ..))

section Loops

variable {listenFd : Int}

theorem Sound.restates {after : EvSvr} (sound : svr.Sound listenFd) (stays : Stays svr after)
    (restates : Restates svr.evmgr after.evmgr) : after.Sound listenFd := by
  refine sound.stays stays restates.agrees (fun ioev found => ?_) fun conn =>
    restates.has (sound.has conn)
  cases listen : svr.evmgr.ioevs.find .listen with
  | none =>
      rw [restates.noIoevs _ listen] at found
      cases found
  | some old =>
      obtain ⟨changed, there, fd, _⟩ := restates.ioevs _ _ listen
      rw [there] at found
      cases found
      exact fd.trans (sound.listen old listen)

theorem updateLoop_sound (now : Tmval) (fuel : Nat) (sound : svr.Sound listenFd)
    (enough : svr.evmgr.timerHeap.last < fuel) :
    ∃ after, updateLoop now fuel svr = .ok () after ∧ after.Sound listenFd := by
  induction fuel generalizing svr with
  | zero => exact (Nat.not_lt_zero _ enough).elim
  | succ fuel ih =>
      rcases expireRoot_step sound.agrees now with stopped |
          ⟨key, tmev, mgr, called, found, pending, agrees, find, ioevs, _, last⟩
      · obtain ⟨after, ran, stays, same⟩ := onMgr_stays stopped sound.agrees
        refine ⟨after, (Act.bind_ok ran).trans rfl, sound.restates stays ?_⟩
        rw [same]
        exact ⟨sound.agrees, fun _ ioev found => ⟨ioev, found, rfl, rfl, Iff.rfl⟩,
          fun _ absent => absent, fun _ tmev found => ⟨tmev, found, Iff.rfl⟩,
          fun _ absent => absent⟩
      · obtain ⟨middle, ran, stays, rfl⟩ := onMgr_stays called agrees
        have restates := restates_of_timer found agrees find ioevs
          (iff_of_false nofun (by rw [pending]; exact nofun))
        obtain ⟨after, more, last⟩ := ih (sound.restates stays restates) (by omega)
        exact ⟨after, (Act.bind_ok ran).trans more, last⟩

theorem fkEvUpdatePendingTmevEv_sound (sound : svr.Sound listenFd) :
    ∃ after, fkEvUpdatePendingTmevEv env svr = .ok () after ∧ after.Sound listenFd := by
  obtain ⟨asking, ran, _⟩ := ask_stays env.clock svr
  obtain ⟨after, looped, last⟩ :=
    updateLoop_sound (env.clock svr.asked) (asking.evmgr.timerHeap.last + 1) (sound.ask ran).sound
      (Nat.lt_succ_self _)
  exact ⟨after, (Act.bind_ok ran).trans looped, last⟩

theorem activatedLoop_sound (ordinary : ∀ n, Ordinary (env.accepts n)) (fuel : Nat)
    (sound : svr.Sound listenFd) (enough : svr.evmgr.actIoev.length < fuel) :
    ∃ after, activatedLoop env fuel svr = .ok () after ∧ after.Sound listenFd := by
  induction fuel generalizing svr with
  | zero => exact (Nat.not_lt_zero _ enough).elim
  | succ fuel ih =>
      unfold activatedLoop
      cases waiting : svr.evmgr.actIoev with
      | nil => exact ⟨svr, rfl, sound⟩
      | cons key rest =>
          obtain ⟨ioev, mgr, found, activated, called, step, left⟩ :=
            takeActivated_step sound.agrees waiting
          obtain ⟨taken, ran, stays, rfl⟩ := onMgr_stays called step.agrees
          have took := sound.restates stays
            (step.restates found (iff_of_false nofun (by rw [activated]; exact nofun)))
          have there : taken.evmgr.ioevs.find key = some { ioev with stat := .pending } := by
            rw [step.find, Function.update_self]
          obtain ⟨middle, back, safely⟩ := iocb_safely ordinary took there nofun
          have shorter : middle.evmgr.actIoev.length < fuel := by
            have fewer := safely.actIoev
            rw [left] at fewer
            rw [waiting, List.length_cons] at enough
            omega
          obtain ⟨after, more, last⟩ := ih safely.sound shorter
          exact ⟨after, (Act.bind_ok ran).trans ((Act.bind_ok back).trans more), last⟩

theorem cycleAgain_safely (sound : svr.Sound listenFd) {key : TmevKey} {tmev : FkTmevT}
    {again : Bool} (there : again = true →
      svr.evmgr.tmevs.find key = some { tmev with stat := .old }) :
    ∃ after, cycleAgain env key tmev again svr = .ok () after ∧ Safely listenFd svr after := by
  unfold cycleAgain
  split
  · next cycles =>
      obtain ⟨asking, ran, stays, same⟩ := ask_stays env.clock svr
      have asked := sound.ask ran
      have found := there cycles.1
      rw [← same] at found
      obtain ⟨mgr, called, step⟩ :=
        cycleTmev_step asked.sound.agrees found rfl (env.clock svr.asked) tmev.interval
      obtain ⟨after, cycled, staysAfter, rfl⟩ := onMgr_stays called step.agrees
      have restates := restates_of_timer found step.agrees step.find step.ioevs
        (iff_of_false nofun nofun)
      exact ⟨after, (Act.bind_ok ran).trans cycled,
        asked.trans ⟨asked.sound.restates staysAfter restates,
          Nat.le_of_eq (congrArg List.length step.actIoev), step.expTmev⟩⟩
  · exact ⟨svr, rfl, .refl sound⟩

theorem expiredLoop_sound (fuel : Nat) (sound : svr.Sound listenFd)
    (enough : svr.evmgr.expTmev.length < fuel) :
    ∃ after, expiredLoop env fuel svr = .ok () after ∧ after.Sound listenFd := by
  induction fuel generalizing svr with
  | zero => exact (Nat.not_lt_zero _ enough).elim
  | succ fuel ih =>
      unfold expiredLoop
      cases waiting : svr.evmgr.expTmev with
      | nil => exact ⟨svr, rfl, sound⟩
      | cons key rest =>
          obtain ⟨tmev, mgr, found, expired, called, step, left⟩ :=
            takeExpired_step sound.agrees waiting
          obtain ⟨taken, ran, stays, rfl⟩ := onMgr_stays called step.agrees
          have took := sound.restates stays
            (restates_of_timer found step.agrees step.find step.ioevs
              (iff_of_false nofun (by rw [expired]; exact nofun)))
          have there : taken.evmgr.tmevs.find key = some { tmev with stat := .old } := by
            rw [step.find, Function.update_self]
          obtain ⟨again, middle, back, safely, same⟩ := @tmcb_safely env _ _ took key _ there nofun
          obtain ⟨cycled, cycle, safelyAgain⟩ :=
            @cycleAgain_safely env _ _ safely.sound key tmev again fun again => by
              rw [same again, there]
          have shorter : cycled.evmgr.expTmev.length < fuel := by
            have fewer := Nat.le_trans safelyAgain.expTmev safely.expTmev
            rw [left] at fewer
            rw [waiting, List.length_cons] at enough
            omega
          obtain ⟨after, more, last⟩ := ih safelyAgain.sound shorter
          dsimp only
          rw [found]
          exact ⟨after, (Act.bind_ok ran).trans
            ((Act.bind_ok back).trans ((Act.bind_ok cycle).trans more)), last⟩

theorem activations_sound (activations : List (Int × UInt8)) (sound : svr.Sound listenFd)
    (known : ∀ activation ∈ activations, svr.evmgr.EntriesSet activation.1 activation.2) :
    ∃ after, Act.forEach
        (fun activation => onMgr (FkEvmgr.fkEvActivateIoev activation.1 activation.2)) activations
          svr = .ok () after ∧ after.Sound listenFd := by
  induction activations generalizing svr with
  | nil => exact ⟨svr, rfl, sound⟩
  | cons activation rest ih =>
      obtain ⟨mgr, called, activates⟩ :=
        fkEvActivateIoev_activates sound.agrees (known activation (List.mem_cons_self ..))
      obtain ⟨middle, ran, stays, rfl⟩ := onMgr_stays called activates.agrees
      obtain ⟨after, more, last⟩ := ih (sound.restates stays activates.restates)
        fun other member => activates.entriesSet (known other (List.mem_cons_of_mem _ member))
      exact ⟨after, (Act.bind_ok ran).trans more, last⟩

theorem fkEvDispatch_sound (ordinary : ∀ n, Ordinary (env.accepts n)) (sound : svr.Sound listenFd)
    (reported : Option (List (Int × UInt8))) (known : svr.ReportKnown reported) :
    ∃ after, fkEvDispatch env reported svr = .ok () after ∧ after.Sound listenFd := by
  cases reported with
  | none => exact ⟨svr, rfl, sound⟩
  | some activations =>
      obtain ⟨one, activated, sound1⟩ :=
        activations_sound activations sound (known activations rfl)
      obtain ⟨two, updated, sound2⟩ := @fkEvUpdatePendingTmevEv_sound env _ _ sound1
      obtain ⟨three, procAct, sound3⟩ := activatedLoop_sound ordinary
        (two.evmgr.actIoev.length + 1) sound2 (Nat.lt_succ_self _)
      obtain ⟨after, procExp, last⟩ :=
        @expiredLoop_sound env _ _ (three.evmgr.expTmev.length + 1) sound3 (Nat.lt_succ_self _)
      exact ⟨after, (Act.bind_ok activated).trans
        ((Act.bind_ok updated).trans ((Act.bind_ok procAct).trans procExp)), last⟩

end Loops

/-! ## From the start -/

section Start

variable {listenFd : Int}

theorem start_sound (listenFd : Int) : (start listenFd).Sound listenFd where
  seen := by
    intro mgr member
    rw [List.mem_singleton.mp member]
    exact fkEvInit_agrees
  agrees := fkEvInit_agrees
  listen := nofun
  listening := Finset.mem_singleton_self _
  has := fun _ => ⟨rfl, rfl, rfl⟩
  fresh := fun _ _ => rfl
  opened := nofun
  apart := nofun

/-- The listening event is changed. -/
theorem Sound.listenStep {after : EvSvr} {ioev : FkIoevT} (sound : svr.Sound listenFd)
    (stays : Stays svr after) (step : IoStep svr.evmgr .listen (some ioev) after.evmgr)
    (fd : ioev.fd = listenFd) : after.Sound listenFd := by
  refine sound.stays stays step.agrees (fun changed found => ?_) fun conn => ?_
  · rw [step.find, Function.update_self] at found
    cases found
    exact fd
  · have has := sound.has conn
    have read : after.evmgr.ioevs.find (.read conn) = svr.evmgr.ioevs.find (.read conn) := by
      have apart : IoevKey.read conn ≠ .listen := nofun
      rw [step.find, Function.update_of_ne apart]
    have write : after.evmgr.ioevs.find (.write conn) = svr.evmgr.ioevs.find (.write conn) := by
      have apart : IoevKey.write conn ≠ .listen := nofun
      rw [step.find, Function.update_of_ne apart]
    unfold Has at has ⊢
    rw [read, write, step.tmevs]
    exact has

/-- A timer of the server is made and added. -/
theorem addTimer_sound {key : TmevKey} {rest : Act EvSvr Unit} (sound : svr.Sound listenFd)
    (apart : ∀ conn, key ≠ .conn conn) (absent : svr.evmgr.tmevs.find key = none) (interval : Nat) :
    ∃ after, after.Sound listenFd ∧
      (∀ other, other ≠ key → after.evmgr.tmevs.find other = svr.evmgr.tmevs.find other) ∧
      (ask env.clock >>= fun now =>
        onMgr (fkTmevPut key (fkTmevCreate now interval .cycle)) >>= fun _ =>
        onMgr (fkEvAddTmev key) >>= fun _ => rest) svr = rest after := by
  obtain ⟨asking, ran, staysAsking, same⟩ := ask_stays env.clock svr
  have asked := sound.ask ran
  rw [← same] at absent
  obtain ⟨one, put, staysOne, stepOne⟩ :=
    onMgr_tm (@fkTmevPut_step _ _ _ _ _ _ (fkTmevCreate (env.clock svr.asked) interval .cycle)
      asked.sound.agrees absent rfl)
  have made := asked.sound.svrTimer staysOne stepOne apart
  have there : one.evmgr.tmevs.find key = some
      (fkTmevCreate (env.clock svr.asked) interval .cycle) := by
    rw [stepOne.find, Function.update_self]
  obtain ⟨two, added, staysTwo, stepTwo⟩ := onMgr_tm (fkEvAddTmev_step made.sound.agrees there rfl)
  refine ⟨two, (made.sound.svrTimer staysTwo stepTwo apart).sound, fun other different => ?_, ?_⟩
  · rw [stepTwo.find, Function.update_of_ne different, stepOne.find,
      Function.update_of_ne different, same]
  · exact (Act.bind_ok ran).trans ((Act.bind_ok put).trans (Act.bind_ok added))

theorem fkSvrInitEv_sound : ∃ after, fkSvrInitEv env listenFd (start listenFd) = .ok () after ∧
    after.Sound listenFd := by
  have sound := start_sound listenFd
  obtain ⟨one, put, stays1, step1⟩ :=
    onMgr_io (@fkIoevPut_step _ _ _ _ _ _ (fkIoevCreateT listenFd fkIoevRead) sound.agrees
      (@rfl _ none) rfl)
  have sound1 := sound.listenStep stays1 step1 rfl
  have unused : (start listenFd).evmgr.Unused listenFd := nofun
  have slots := (unused.put step1 rfl).slots sound1.agrees
  have there : one.evmgr.ioevs.find .listen = some (fkIoevCreateT listenFd fkIoevRead) := by
    rw [step1.find, Function.update_self]
  obtain ⟨two, added, stays2, step2⟩ := onMgr_io (fkEvAddIoev_step sound1.agrees there rfl
    (fun _ other => (slots other).1) fun _ other => (slots other).2)
  have sound2 := sound1.listenStep stays2 step2 rfl
  have timers2 : two.evmgr.tmevs = (start listenFd).evmgr.tmevs := step2.tmevs.trans step1.tmevs
  let debugging : Act EvSvr Unit := if env.debug then
    ask env.clock >>= fun now => onMgr (fkTmevPut .svr2 (fkTmevCreate now 4000 .cycle)) >>= fun _ =>
      onMgr (fkEvAddTmev .svr2) >>= fun _ => pure () else pure ()
  obtain ⟨three, sound3, others, timed⟩ :=
    @addTimer_sound env two listenFd .svr debugging sound2 nofun
      (by rw [timers2]; rfl) 3000
  have started : fkSvrInitEv env listenFd (start listenFd) = debugging three :=
    (Act.bind_ok put).trans ((Act.bind_ok added).trans timed)
  rw [started]
  change ∃ after, (if env.debug then _ else _ : Act EvSvr Unit) three = _ ∧ _
  split
  · have absent : three.evmgr.tmevs.find .svr2 = none := by
      rw [others .svr2 nofun, timers2]
      rfl
    obtain ⟨after, sound4, _, ended⟩ :=
      @addTimer_sound env three listenFd .svr2 (pure ()) sound3 nofun absent 4000
    exact ⟨after, ended, sound4⟩
  · exact ⟨three, rfl, sound3⟩

/-- In every state of a run, every event is in the containers that its state says, as long as
the multiplexer reports directions that an event was added for on the descriptor before, and
`accept` fails in the expected ways. -/
theorem run_agrees (env : EvEnv) (listenFd : Int) (rounds : List (Option (List (Int × UInt8))))
    (ordinary : ∀ n, Ordinary (env.accepts n)) (known : ReportsKnown env listenFd rounds) :
    ∃ final, run env listenFd rounds = .ok () final ∧ ∀ mgr ∈ final.states, mgr.Agrees := by
  obtain ⟨started, init, sound⟩ := @fkSvrInitEv_sound env listenFd
  obtain ⟨final, ran, last⟩ := Act.forEach_along
    (fun svr reported sound known => fkEvDispatch_sound ordinary sound reported known)
    (known () started init) sound
  exact ⟨final, (Act.bind_ok init).trans ran, last.seen⟩

end Start

/-- Every client gets the descriptor 5.  The first request leaves a reply that is not sent at
once, and then the client is gone. -/
def clientEnv : EvEnv where
  maxConns := 4
  timeout := 60
  maxWbuf := 1024
  debug := false
  clock := fun _ => ⟨0, 0⟩
  time := fun _ => 0
  accepts := fun _ => [.fd 5, .eagain]
  reads := fun asked =>
    if asked < 8 then .served 0 ((fkBufCreate fkBufInitLen 1024).fkBufHighInc 1) else .closed
  sends := fun _ => []

/-- A client hangs up before it has read its reply. -/
def servedRounds : List (Option (List (Int × UInt8))) :=
  [some [(3, fkIoevRead)], some [(5, fkIoevRead)], some [(5, fkIoevRead ||| fkIoevWrite)]]

theorem run_agrees_served : ReportsKnown clientEnv 3 servedRounds ∧
    ∃ final, run clientEnv 3 servedRounds = .ok () final ∧ ∀ mgr ∈ final.states, mgr.Agrees := by
  have known : ReportsKnown clientEnv 3 servedRounds := by decide +kernel
  exact ⟨known, run_agrees clientEnv 3 servedRounds (fun _ => trivial) known⟩

/-- The first client hangs up before it was sent a reply: `write_ev[5]` was never set, and it is
looked behind. -/
theorem run_not_agrees :
    ¬ ∃ final, run clientEnv 3 [some [(3, fkIoevRead)], some [(5, fkIoevRead ||| fkIoevWrite)]] =
      .ok () final ∧ ∀ mgr ∈ final.states, mgr.Agrees := by
  have faults : Act.Leaves (do
      fkSvrInitEv clientEnv 3
      Act.forEach (fkEvDispatch clientEnv)
        [some [(3, fkIoevRead)], some [(5, fkIoevRead ||| fkIoevWrite)]] : Act EvSvr Unit)
      (start 3) fun _ => False := by decide +kernel
  rintro ⟨final, ran, _⟩
  exact faults () final ran

end EvSvr

end Freekick
