import Freekick.Event.Agree
import Freekick.Net.Listen
import Freekick.Store.Link

/-!
# The callbacks of the server: `fk_svr.c`, `fk_svr_conn.c`

Connections are numbered as they are made, and their events are named by that number: a read
and a write event and a timer, with the connection as the argument of their callbacks.  What
the clocks and the sockets return is given from outside, one value for each question.  What a
read callback receives, parses and runs counts as one such value: it closes the connection or
leaves some replies.

Every state of the event manager is noted.
-/

namespace Freekick

open Lib Lib.Call FkEvmgr

inductive IoevKey where
  | listen
  | read (conn : Nat)
  | write (conn : Nat)
  deriving DecidableEq, Repr

inductive TmevKey where
  | svr
  | svr2
  | conn (conn : Nat)
  deriving DecidableEq, Repr

/-- The part of `fk_conn_t` that decides about its events. -/
structure EvConn where
  fd : Int
  writeAdded : Bool
  wbuf : FkBuf
  lastRecv : Int

/-- The server with its connections, the number of connections made so far, the open
descriptors, the number of questions asked and the states of the event manager up to now. -/
structure EvSvr where
  evmgr : FkEvmgr IoevKey TmevKey
  conns : Nat → Option EvConn
  created : Nat
  connCnt : Int
  opened : Finset Int
  asked : Nat
  states : List (FkEvmgr IoevKey TmevKey)

/-- How a read callback ends before `fk_conn_send_rsp`. -/
inductive ReadDone where
  | closed
  | served (lastRecv : Int) (wbuf : FkBuf)

/-- The settings, and the answers from outside. -/
structure EvEnv where
  maxConns : Nat
  timeout : Int
  maxWbuf : Nat
  debug : Bool
  clock : Nat → Tmval
  time : Nat → Int
  accepts : Nat → List Accept
  reads : Nat → ReadDone
  sends : Nat → List SendRt

namespace EvSvr

/-- A call of the event manager. -/
def onMgr {A : Type} (act : Act (FkEvmgr IoevKey TmevKey) A) : Act EvSvr A := fun svr =>
  match act svr.evmgr with
  | .ok value mgr => .ok value { svr with evmgr := mgr, states := mgr :: svr.states }
  | .err mgr => .err { svr with evmgr := mgr, states := mgr :: svr.states }
  | .fault => .fault

def ask {A : Type} (answers : Nat → A) : Act EvSvr A := fun svr =>
  .ok (answers svr.asked) { svr with asked := svr.asked + 1 }

/-- The connection; one that was destroyed cannot be read. -/
def connOf (conn : Nat) : Act EvSvr EvConn := fun svr =>
  match svr.conns conn with
  | none => .fault
  | some info => .ok info svr

def setConn (conn : Nat) (info : Option EvConn) : Act EvSvr Unit :=
  Act.modify fun svr => { svr with conns := Function.update svr.conns conn info }

/-! ## Connections -/

section Callbacks

variable (env : EvEnv)

/-- The events of `fk_conn_create`. -/
def createEvents (conn : Nat) (fd : Int) : Act EvSvr Unit := do
  onMgr (fkIoevPut (.read conn) (fkIoevCreateT fd fkIoevRead))
  let _ ← onMgr (FkEvmgr.fkEvAddIoev (.read conn))
  onMgr (fkIoevPut (.write conn) (fkIoevCreateT fd fkIoevWrite))
  let now ← ask env.clock
  onMgr (fkTmevPut (.conn conn) (fkTmevCreate now 5000 .cycle))
  let _ ← onMgr (fkEvAddTmev (.conn conn))

def fkConnCreateEv (fd : Int) : Act EvSvr Unit := do
  let conn ← Act.read EvSvr.created
  Act.modify fun svr => { svr with created := svr.created + 1 }
  Act.onlyIf (fd ≠ fkConnFakeFd) (createEvents env conn fd)
  let now ← ask env.time
  setConn conn (some ⟨fd, false, fkBufCreate fkBufInitLen env.maxWbuf, now⟩)

def fkSvrAddConnEv (fd : Int) : Act EvSvr Unit := do
  fkConnCreateEv env fd
  Act.modify fun svr => { svr with connCnt := svr.connCnt + 1 }

/-- The events in `fk_conn_destroy`. -/
def destroyEvents (conn : Nat) (writeAdded : Bool) : Act EvSvr Unit := do
  let _ ← onMgr (FkEvmgr.fkEvRemoveIoev (.read conn))
  onMgr (fkIoevDestroy (.read conn))
  Act.onlyIf (writeAdded = true) (onMgr (FkEvmgr.fkEvRemoveIoev (.write conn)) >>= fun _ => pure ())
  onMgr (fkIoevDestroy (.write conn))
  let _ ← onMgr (fkEvRemoveTmev (.conn conn))
  onMgr (fkTmevDestroy (.conn conn))

def close (fd : Int) : Act EvSvr Unit :=
  Act.modify fun svr => { svr with opened := svr.opened.erase fd }

def fkConnDestroyEv (conn : Nat) : Act EvSvr Unit := do
  let info ← connOf conn
  Act.onlyIf (info.fd ≠ fkConnFakeFd) (destroyEvents conn info.writeAdded)
  Act.onlyIf (info.fd ≠ fkConnFakeFd) (close info.fd)
  setConn conn none

def fkSvrRemoveConnEv (conn : Nat) : Act EvSvr Unit := do
  Act.modify fun svr => { svr with connCnt := svr.connCnt - 1 }
  fkConnDestroyEv conn

/-! ## Callbacks -/

/-- One round of `fk_svr_listen_cb`, which does not return from it.  A descriptor that is
negative or open is no answer of `accept` and counts as an interrupted call. -/
def acceptOne (fd : Int) : Act EvSvr Unit := fun svr =>
  if 0 ≤ fd ∧ fd ∉ svr.opened then
    let accepted := { svr with opened := insert fd svr.opened }
    if svr.connCnt = env.maxConns then close fd accepted else fkSvrAddConnEv env fd accepted
  else .ok () svr

/-- After another error the callback goes on with the descriptor -1, which it closes at the
limit.  Below it `fk_svr_add_conn` writes `conns_tab[-1]`. -/
def acceptFailed : Act EvSvr Unit := fun svr =>
  if svr.connCnt = env.maxConns then .ok () svr else .fault

/-- After the answers that are given, there is no more connection. -/
def listenLoop : List Accept → Act EvSvr Unit
  | [] => pure ()
  | .eintr :: rest => listenLoop rest
  | .eagain :: _ => pure ()
  | .fd fd :: rest => do
      acceptOne env fd
      listenLoop rest
  | .other :: rest => do
      acceptFailed env
      listenLoop rest

def fkSvrListenCbEv : Act EvSvr Unit := do
  let outcomes ← ask env.accepts
  listenLoop env outcomes

def fkConnSendRspEv (conn : Nat) : Act EvSvr Unit := do
  let info ← connOf conn
  if 0 < info.wbuf.fkBufPayloadLen ∧ info.writeAdded = false then do
    let _ ← onMgr (FkEvmgr.fkEvAddIoev (.write conn))
    setConn conn (some { info with writeAdded := true })
  else pure ()

def fkConnReadCbEv (conn : Nat) : Act EvSvr Unit := do
  let info ← connOf conn
  let ended ← ask env.reads
  match ended with
  | .closed => fkSvrRemoveConnEv conn
  | .served lastRecv wbuf => do
      setConn conn (some { info with lastRecv := lastRecv, wbuf := wbuf })
      fkConnSendRspEv conn

def fkConnWriteCbEv (conn : Nat) : Act EvSvr Unit := do
  let info ← connOf conn
  let results ← ask env.sends
  let out := writeLoop results info.wbuf
  if out.failed then fkSvrRemoveConnEv conn
  else if out.wbuf.fkBufShrink.fkBufPayloadLen = 0 then do
    let _ ← onMgr (FkEvmgr.fkEvRemoveIoev (.write conn))
    setConn conn (some { info with wbuf := out.wbuf.fkBufShrink, writeAdded := false })
  else setConn conn (some { info with wbuf := out.wbuf.fkBufShrink })

/-- Whether it returns 0. -/
def fkConnTimerCbEv (conn : Nat) : Act EvSvr Bool := do
  let info ← connOf conn
  let now ← ask env.time
  if env.timeout < now - info.lastRecv then do
    fkSvrRemoveConnEv conn
    pure false
  else pure true

def iocb : IoevKey → Act EvSvr Unit
  | .listen => fkSvrListenCbEv env
  | .read conn => fkConnReadCbEv env conn
  | .write conn => fkConnWriteCbEv env conn

/-- `fk_svr_timer_cb` has nothing to do with events and returns 0; `fk_svr_timer_cb2` removes
its own timer and returns -1. -/
def tmcb : TmevKey → Act EvSvr Bool
  | .svr => pure true
  | .svr2 => do
      let _ ← onMgr (fkEvRemoveTmev .svr2)
      pure false
  | .conn conn => fkConnTimerCbEv env conn

/-! ## The event loop -/

/-- The loop of `fk_ev_update_pending_tmev`. -/
def updateLoop (now : Tmval) : Nat → Act EvSvr Unit
  | 0 => Act.fault
  | fuel + 1 => do
      let more ← onMgr (expireRoot now)
      if more then updateLoop now fuel else pure ()

/-- Every round takes a timer from the heap. -/
def fkEvUpdatePendingTmevEv : Act EvSvr Unit := do
  let now ← ask env.clock
  let last ← Act.read fun svr => svr.evmgr.timerHeap.last
  updateLoop now (last + 1)

/-- The loop of `fk_ev_proc_activated_ioev`. -/
def activatedLoop : Nat → Act EvSvr Unit
  | 0 => Act.fault
  | fuel + 1 => fun svr =>
      match svr.evmgr.actIoev with
      | [] => .ok () svr
      | key :: _ => (do
          onMgr (takeActivated key)
          iocb env key
          activatedLoop fuel : Act EvSvr Unit) svr

/-- Every round takes an event off the list, and no callback puts one on it. -/
def fkEvProcActivatedIoev : Act EvSvr Unit := do
  let count ← Act.read fun svr => svr.evmgr.actIoev.length
  activatedLoop env (count + 1)

/-- Step 3 of a round of `fk_ev_proc_expired_tmev`. -/
def cycleAgain (key : TmevKey) (tmev : FkTmevT) (again : Bool) : Act EvSvr Unit :=
  if again = true ∧ tmev.type = .cycle then do
    let now ← ask env.clock
    onMgr (cycleTmev now key tmev.interval)
  else pure ()

/-- The loop of `fk_ev_proc_expired_tmev`. -/
def expiredLoop : Nat → Act EvSvr Unit
  | 0 => Act.fault
  | fuel + 1 => fun svr =>
      match svr.evmgr.expTmev with
      | [] => .ok () svr
      | key :: _ =>
          match svr.evmgr.tmevs.find key with
          | none => .fault
          | some tmev => (do
              onMgr (takeExpired key)
              let again ← tmcb env key
              cycleAgain env key tmev again
              expiredLoop fuel : Act EvSvr Unit) svr

def fkEvProcExpiredTmev : Act EvSvr Unit := do
  let count ← Act.read fun svr => svr.evmgr.expTmev.length
  expiredLoop env (count + 1)

/-- `fk_ev_dispatch`, with the descriptors and types that the multiplexer reports; `none` is
its failure.  The timeout that it is given is left out. -/
def fkEvDispatch (reported : Option (List (Int × UInt8))) : Act EvSvr Unit :=
  match reported with
  | none => pure ()
  | some activations => do
      Act.forEach (fun activation => onMgr (FkEvmgr.fkEvActivateIoev activation.1 activation.2))
        activations
      fkEvUpdatePendingTmevEv env
      fkEvProcActivatedIoev env
      fkEvProcExpiredTmev env

/-- The events of `fk_svr_init`. -/
def fkSvrInitEv (listenFd : Int) : Act EvSvr Unit := do
  onMgr (fkIoevPut .listen (fkIoevCreateT listenFd fkIoevRead))
  let _ ← onMgr (FkEvmgr.fkEvAddIoev .listen)
  let now ← ask env.clock
  onMgr (fkTmevPut .svr (fkTmevCreate now 3000 .cycle))
  let _ ← onMgr (fkEvAddTmev .svr)
  if env.debug then do
    let now ← ask env.clock
    onMgr (fkTmevPut .svr2 (fkTmevCreate now 4000 .cycle))
    let _ ← onMgr (fkEvAddTmev .svr2)
  else pure ()

/-- The server before `fk_svr_init`, with its listening descriptor. -/
def start (listenFd : Int) : EvSvr where
  evmgr := fkEvInit
  conns := fun _ => none
  created := 0
  connCnt := 0
  opened := {listenFd}
  asked := 0
  states := [fkEvInit]

/-- The server after some rounds of `fk_ev_cycle`. -/
def run (listenFd : Int) (rounds : List (Option (List (Int × UInt8)))) : Outcome EvSvr Unit :=
  (do
    fkSvrInitEv env listenFd
    Act.forEach (fkEvDispatch env) rounds : Act EvSvr Unit) (start listenFd)

end Callbacks

end EvSvr

end Freekick
