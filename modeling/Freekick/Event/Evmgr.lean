import Freekick.Event.Timer
import Freekick.Lib.Call
import Freekick.Lib.Objects

/-!
# The event manager: `fk_ev.c`

Events are named by keys; a key tells the callback and its argument.  An event that was
created and not destroyed is an object of the manager.  Calls of the multiplexer are taken to
succeed.  An undefined operation, such as taking an event off a list that it is not on, is a
fault.
-/

namespace Freekick

open Lib Lib.Call

/-- `FK_IOEV_INIT`, `FK_IOEV_PENDING` and `FK_IOEV_ACTIVATED`. -/
inductive FkIoevStat where
  | init
  | pending
  | activated
  deriving DecidableEq, Repr

/-- `FK_TMEV_INIT` to `FK_TMEV_OLD`. -/
inductive FkTmevStat where
  | init
  | pending
  | expired
  | old
  deriving DecidableEq, Repr

inductive FkEvRt where
  | ok
  | err
  deriving DecidableEq, Repr

def fkIoevRead : UInt8 := 1
def fkIoevWrite : UInt8 := 2

/-- `FK_TMEV_CYCLE` and `FK_TMEV_ONCE`. -/
inductive FkTmevType where
  | cycle
  | once
  deriving DecidableEq, Repr

/-! ## Times -/

/-- `struct timeval` from any clock. -/
structure Tmval where
  sec : Int
  usec : Int
  deriving DecidableEq, Repr

/-- The macro `fk_util_tmval_cmp`, with its value assigned to an `int`. -/
def tmvalCmp (first second : Tmval) : Int :=
  toInt32 (if first.sec = second.sec then first.usec - second.usec else first.sec - second.sec)

def fkUtilMillis2tv (ms : Nat) : Tmval := ⟨(ms / 1000 : Nat), (ms % 1000 * 1000 : Nat)⟩

def fkUtilTmvalAdd (first second : Tmval) : Tmval :=
  if 1000000 ≤ first.usec + second.usec then
    ⟨first.sec + second.sec + 1, first.usec + second.usec - 1000000⟩
  else ⟨first.sec + second.sec, first.usec + second.usec⟩

/-- `fk_util_cal_expire` at the given time. -/
def fkUtilCalExpire (now : Tmval) (interval : Nat) : Tmval :=
  fkUtilTmvalAdd now (fkUtilMillis2tv interval)

/-! ## Events and their manager -/

structure FkIoevT where
  fd : Int
  type : UInt8
  stat : FkIoevStat
  deriving DecidableEq, Repr

structure FkTmevT where
  type : FkTmevType
  stat : FkTmevStat
  interval : Nat
  when : Tmval
  deriving DecidableEq, Repr

def fkIoevCreateT (fd : Int) (type : UInt8) : FkIoevT := ⟨fd, type, .init⟩

def fkTmevCreate (now : Tmval) (interval : Nat) (type : FkTmevType) : FkTmevT :=
  ⟨type, .init, interval, fkUtilCalExpire now interval⟩

/-- `fk_evmgr_t` with the events that exist.  An entry `none` of `read_ev` or `write_ev` was
never written, and has what `malloc` left there. -/
structure FkEvmgr (I T : Type) where
  ioevs : Objects I FkIoevT
  tmevs : Objects T FkTmevT
  ioevCnt : Int
  tmevCnt : Int
  timerHeap : FkHeap T
  actIoev : List I
  expTmev : List T
  oldTmev : List T
  readEv : Int → Option (Option I)
  writeEv : Int → Option (Option I)

variable {I T : Type} [DecidableEq I] [DecidableEq T]

/-- `fk_rawlist_remove_anyone` of an event that is on the list. -/
def fkRawlistRemoveAnyone {E : Type} [DecidableEq E] (list : List E) (event : E) :
    Option (List E) :=
  if event ∈ list then some (list.erase event) else none

namespace FkEvmgr

def fkEvInit : FkEvmgr I T where
  ioevs := .empty
  tmevs := .empty
  ioevCnt := 0
  tmevCnt := 0
  timerHeap := fkHeapCreate
  actIoev := []
  expTmev := []
  oldTmev := []
  readEv := fun _ => none
  writeEv := fun _ => none

/-- `fk_tmev_cmp`. -/
def leafCmp (mgr : FkEvmgr I T) (first second : T) : Int :=
  match mgr.tmevs.find first, mgr.tmevs.find second with
  | some first, some second => tmvalCmp first.when second.when
  | _, _ => 0

/-! ## I/O events -/

/-- The table of a direction with an entry for the event, when it is of that type. -/
def slot (bit : UInt8) (table : Int → Option (Option I)) (ioev : FkIoevT) (entry : Option I) :
    Int → Option (Option I) :=
  if ioev.type &&& bit ≠ 0 then Function.update table ioev.fd (some entry) else table

def fkEvAddIoev (key : I) : Act (FkEvmgr I T) FkEvRt := fun mgr =>
  match mgr.ioevs.find key with
  | none => .fault
  | some ioev =>
      if ioev.stat ≠ .init then .ok .err mgr
      else .ok .ok { mgr with
        readEv := slot fkIoevRead mgr.readEv ioev (some key)
        writeEv := slot fkIoevWrite mgr.writeEv ioev (some key)
        ioevs := mgr.ioevs.put key { ioev with stat := .pending }
        ioevCnt := mgr.ioevCnt + 1 }

def fkEvRemoveIoev (key : I) : Act (FkEvmgr I T) FkEvRt := fun mgr =>
  match mgr.ioevs.find key with
  | none => .fault
  | some ioev =>
      if ioev.stat = .init then .ok .err mgr
      else
        match
            if ioev.stat = .activated then fkRawlistRemoveAnyone mgr.actIoev key
            else some mgr.actIoev with
        | none => .fault
        | some actIoev => .ok .ok { mgr with
            actIoev := actIoev
            ioevs := mgr.ioevs.put key { ioev with stat := .init }
            readEv := slot fkIoevRead mgr.readEv ioev none
            writeEv := slot fkIoevWrite mgr.writeEv ioev none
            ioevCnt := mgr.ioevCnt - 1 }

/-- One of the two halves of `fk_ev_activate_ioev`, with the entry of its table.  A pointer that
was never set is looked behind, wherever it points. -/
def activateEntry (entry : Option (Option I)) : Act (FkEvmgr I T) Unit := fun mgr =>
  match entry with
  | none => .fault
  | some none => .ok () mgr
  | some (some key) =>
      match mgr.ioevs.find key with
      | none => .fault
      | some ioev =>
          if ioev.stat = .pending then .ok () { mgr with
            actIoev := key :: mgr.actIoev
            ioevs := mgr.ioevs.put key { ioev with stat := .activated } }
          else .ok () mgr

def fkEvActivateIoev (fd : Int) (type : UInt8) : Act (FkEvmgr I T) Unit := do
  if type &&& fkIoevRead ≠ 0 then
    let rioev ← Act.read fun mgr => mgr.readEv fd
    activateEntry rioev
  if type &&& fkIoevWrite ≠ 0 then
    let wioev ← Act.read fun mgr => mgr.writeEv fd
    activateEntry wioev

/-- Step 1 of a round of `fk_ev_proc_activated_ioev`. -/
def takeActivated (key : I) : Act (FkEvmgr I T) Unit := fun mgr =>
  match mgr.ioevs.find key, fkRawlistRemoveAnyone mgr.actIoev key with
  | some ioev, some actIoev => .ok () { mgr with
      actIoev := actIoev
      ioevs := mgr.ioevs.put key { ioev with stat := .pending } }
  | _, _ => .fault

def fkIoevPut (key : I) (ioev : FkIoevT) : Act (FkEvmgr I T) Unit :=
  Act.modify fun mgr => { mgr with ioevs := mgr.ioevs.put key ioev }

/-- `fk_ioev_destroy`. -/
def fkIoevDestroy (key : I) : Act (FkEvmgr I T) Unit := fun mgr =>
  match mgr.ioevs.find key with
  | none => .fault
  | some _ => .ok () { mgr with ioevs := mgr.ioevs.drop key }

/-! ## Timers -/

def fkEvAddTmev (key : T) : Act (FkEvmgr I T) FkEvRt := fun mgr =>
  match mgr.tmevs.find key with
  | none => .fault
  | some tmev =>
      if tmev.stat ≠ .init then .ok .err mgr
      else
        match fkHeapPush mgr.leafCmp mgr.timerHeap key with
        | none => .fault
        | some timerHeap => .ok .ok { mgr with
            timerHeap := timerHeap
            tmevs := mgr.tmevs.put key { tmev with stat := .pending }
            tmevCnt := mgr.tmevCnt + 1 }

def fkEvRemoveTmev (key : T) : Act (FkEvmgr I T) FkEvRt := fun mgr =>
  match mgr.tmevs.find key with
  | none => .fault
  | some tmev =>
      if tmev.stat = .init then .ok .err mgr
      else
        match
            if tmev.stat = .pending then fkHeapRemove mgr.leafCmp mgr.timerHeap key
            else some mgr.timerHeap,
            if tmev.stat = .expired then fkRawlistRemoveAnyone mgr.expTmev key
            else some mgr.expTmev,
            if tmev.stat = .old then fkRawlistRemoveAnyone mgr.oldTmev key
            else some mgr.oldTmev with
        | some timerHeap, some expTmev, some oldTmev => .ok .ok { mgr with
            timerHeap := timerHeap
            expTmev := expTmev
            oldTmev := oldTmev
            tmevs := mgr.tmevs.put key { tmev with stat := .init }
            tmevCnt := mgr.tmevCnt - 1 }
        | _, _, _ => .fault

/-- One round of `fk_ev_update_pending_tmev`: the root goes to the expired list when it is
due. -/
def expireRoot (now : Tmval) : Act (FkEvmgr I T) Bool := fun mgr =>
  match fkHeapRoot mgr.timerHeap with
  | none => .ok false mgr
  | some key =>
      match mgr.tmevs.find key with
      | none => .fault
      | some tmev =>
          if 0 ≤ tmvalCmp now tmev.when then
            match fkHeapPop mgr.leafCmp mgr.timerHeap with
            | none => .fault
            | some (_, timerHeap) => .ok true { mgr with
                timerHeap := timerHeap
                expTmev := key :: mgr.expTmev
                tmevs := mgr.tmevs.put key { tmev with stat := .expired } }
          else .ok false mgr

/-- Step 1 of a round of `fk_ev_proc_expired_tmev`. -/
def takeExpired (key : T) : Act (FkEvmgr I T) Unit := fun mgr =>
  match mgr.tmevs.find key, fkRawlistRemoveAnyone mgr.expTmev key with
  | some tmev, some expTmev => .ok () { mgr with
      expTmev := expTmev
      oldTmev := key :: mgr.oldTmev
      tmevs := mgr.tmevs.put key { tmev with stat := .old } }
  | _, _ => .fault

/-- Step 3 of that round for a timer that is to be used again. -/
def cycleTmev (now : Tmval) (key : T) (interval : Nat) : Act (FkEvmgr I T) Unit := fun mgr =>
  match mgr.tmevs.find key, fkRawlistRemoveAnyone mgr.oldTmev key with
  | some tmev, some oldTmev =>
      let timed :=
        { mgr with tmevs := mgr.tmevs.put key { tmev with when := fkUtilCalExpire now interval } }
      match fkHeapPush timed.leafCmp timed.timerHeap key with
      | none => .fault
      | some timerHeap => .ok () { timed with
          oldTmev := oldTmev
          timerHeap := timerHeap
          tmevs := timed.tmevs.put key
            { tmev with when := fkUtilCalExpire now interval, stat := .pending } }
  | _, _ => .fault

def fkTmevPut (key : T) (tmev : FkTmevT) : Act (FkEvmgr I T) Unit :=
  Act.modify fun mgr => { mgr with tmevs := mgr.tmevs.put key tmev }

/-- `fk_tmev_destroy`. -/
def fkTmevDestroy (key : T) : Act (FkEvmgr I T) Unit := fun mgr =>
  match mgr.tmevs.find key with
  | none => .fault
  | some _ => .ok () { mgr with tmevs := mgr.tmevs.drop key }

end FkEvmgr

end Freekick
