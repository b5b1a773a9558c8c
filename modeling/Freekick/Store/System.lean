import Freekick.Store.Invariant

/-!
# The server and its clients

Clients connect, send commands in any order, take their replies and leave.  Every
connection has its own selected database and write buffer; the databases and the log
are shared.  A command that returns an error costs its client the connection, and a
crash ends the run.
-/

namespace Freekick

open Lib.Call

structure FkSystem where
  svr : FkSvr
  conns : Nat → Option FkConnOut

inductive Event where
  | connect (client : Nat)
  | command (client : Nat) (args : List Bytes)
  | sent (client : Nat) (count : Nat)
  | close (client : Nat)

namespace FkSystem

def setConn (sys : FkSystem) (client : Nat) (conn : Option FkConnOut) : FkSystem :=
  { sys with conns := Function.update sys.conns client conn }

/-- What all connections have, they have after one of them is made or changed with it. -/
theorem each_setConn {sys : FkSystem} {client : Nat} {conn : Option FkConnOut}
    {has : FkConnOut → Prop} (each : ∀ other out, sys.conns other = some out → has out)
    (new : ∀ out, conn = some out → has out) :
    ∀ other out, (sys.setConn client conn).conns other = some out → has out := by
  intro other out connected
  change Function.update sys.conns client conn other = some out at connected
  by_cases same : other = client
  · rw [same, Function.update_self] at connected
    exact new out connected
  · rw [Function.update_of_ne same] at connected
    exact each other out connected

section Run

variable (fkCmdEval : Handler) (maxWbuf : Nat)

/-- The part of `fk_conn_read_cb` that runs one command. -/
def command (sys : FkSystem) (client : Nat) (args : List Bytes) : Option FkSystem :=
  match sys.conns client with
  | none => some sys
  | some out =>
      match fkConnProcCmd fkCmdEval ⟨sys.svr, out⟩ (args.map some) with
      | none => none
      | some (.err, work) => some (({ sys with svr := work.svr }).setConn client none)
      | some (_, work) => some (({ sys with svr := work.svr }).setConn client (some work.out))

/-- `none` is a crash. -/
def step (sys : FkSystem) : Event → Option FkSystem
  | .connect client => some (sys.setConn client (some (fkConnCreate .real maxWbuf).toFkConnOut))
  | .command client args => sys.command fkCmdEval client args
  | .sent client count =>
      some (sys.setConn client ((sys.conns client).map fun out =>
        { out with wbuf := (out.wbuf.fkBufLowInc count).fkBufShrink }))
  | .close client => some (sys.setConn client none)

def run : FkSystem → List Event → Option FkSystem
  | sys, [] => some sys
  | sys, event :: rest => (sys.step fkCmdEval maxWbuf event).bind fun next => next.run rest

end Run

end FkSystem

/-- Empty databases and no client. -/
def fkSystemInit (dbcnt : Nat) (blogOn : Bool) (clock : Nat → Int)
    (junk : Nat → UInt8) : FkSystem :=
  ⟨fkSvrInit dbcnt blogOn clock junk, fun _ => none⟩

/-- A request of the form that the parser hands on, other than `EVAL`. -/
structure Admitted (args : List Bytes) : Prop where
  nonempty : args ≠ []
  count : args.length ≤ fkArgCntHighwat
  fits : ArgsFit args
  notEval : fkStr2upper (args.headD []) ≠ ascii "EVAL"

def Event.Admitted : Event → Prop
  | .command _ args => Freekick.Admitted args
  | _ => True

instance (args : List Bytes) : Decidable (Admitted args) :=
  decidable_of_iff (args ≠ [] ∧ args.length ≤ fkArgCntHighwat ∧
    (∀ arg ∈ args, arg.length ≤ fkArgHighwat) ∧
      fkStr2upper (args.headD []) ≠ ascii "EVAL")
    ⟨fun all => ⟨all.1, all.2.1, all.2.2.1, all.2.2.2⟩,
      fun admitted => ⟨admitted.nonempty, admitted.count, admitted.fits, admitted.notEval⟩⟩

instance (event : Event) : Decidable event.Admitted :=
  match event with
  | .command _ args => inferInstanceAs (Decidable (Admitted args))
  | .connect _ => isTrue trivial
  | .sent _ _ => isTrue trivial
  | .close _ => isTrue trivial

/-- Every name that the event can store is good. -/
def Event.Names (good : Bytes → Prop) : Event → Prop
  | .command _ args => ∀ name ∈ storedNames (fkStr2upper (args.headD [])) args.tail, good name
  | _ => True

theorem Event.Admitted.names {event : Event} (admitted : event.Admitted) : event.Names ArgName := by
  cases event with
  | command client args =>
      intro name member
      exact admitted.fits name (List.mem_of_mem_tail (mem_of_mem_storedNames member))
  | connect client => trivial
  | sent client count => trivial
  | close client => trivial

section Keep

variable {fkCmdEval : Handler} {maxWbuf : Nat} {good : Bytes → Prop} {sys next : FkSystem}

/-- A command keeps what all of its handler's outcomes keep. -/
theorem FkSystem.command_svr {holds : FkSvr → Prop} {client : Nat} {args : List Bytes}
    (kept : Act.Keeps (fun work => holds work.svr) (procArgs fkCmdEval args))
    (start : holds sys.svr) (stepped : sys.command fkCmdEval client args = some next) :
    holds next.svr := by
  unfold FkSystem.command at stepped
  split at stepped
  · cases stepped
    exact start
  · next out connected =>
      rw [fkConnProcCmd_args] at stepped
      cases called : procArgs fkCmdEval args ⟨sys.svr, out⟩ with
      | ok value work =>
          rw [called] at stepped
          cases stepped
          exact (kept _ start).1 value work called
      | err work =>
          rw [called] at stepped
          cases stepped
          exact (kept _ start).2 work called
      | fault =>
          rw [called] at stepped
          cases stepped

theorem FkSystem.step_ok {event : Event} (admitted : event.Admitted) (names : event.Names good)
    (start : SvrOk good sys.svr) (stepped : sys.step fkCmdEval maxWbuf event = some next) :
    SvrOk good next.svr := by
  cases event with
  | connect client =>
      cases stepped
      exact start
  | command client args =>
      obtain ⟨nonempty, _, fits, notEval⟩ := admitted
      cases args with
      | nil => exact (nonempty rfl).elim
      | cons first rest =>
          exact FkSystem.command_svr (procArgs_keeps notEval fits names) start stepped
  | sent client count =>
      cases stepped
      exact start
  | close client =>
      cases stepped
      exact start

theorem FkSystem.run_ok {events : List Event} (admitted : ∀ event ∈ events, event.Admitted)
    (names : ∀ event ∈ events, event.Names good) (start : SvrOk good sys.svr)
    (reached : sys.run fkCmdEval maxWbuf events = some next) : SvrOk good next.svr := by
  induction events generalizing sys with
  | nil =>
      cases reached
      exact start
  | cons event rest ih =>
      obtain ⟨middle, stepped, later⟩ := Option.bind_eq_some_iff.mp reached
      have between := FkSystem.step_ok (admitted event (List.mem_cons_self ..))
        (names event (List.mem_cons_self ..)) start stepped
      exact ih (fun other member => admitted other (List.mem_cons_of_mem _ member))
        (fun other member => names other (List.mem_cons_of_mem _ member)) between later

theorem fkSystemInit_ok (dbcnt : Nat) (blogOn : Bool) (clock : Nat → Int) (junk : Nat → UInt8) :
    SvrOk good (fkSystemInit dbcnt blogOn clock junk).svr := by
  intro isexp idx
  cases isexp
  · exact fkDictCreate_ok
  · exact fkDictCreate_ok

end Keep

end Freekick
