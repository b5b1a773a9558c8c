import Mathlib.Data.Finset.Card
import Freekick.Lib.Steps
import Freekick.Net.Conn

/-!
# Accepting connections: `fk_svr_listen_cb`, `fk_svr_add_conn`, `fk_svr_remove_conn`

The listen callback calls `accept` until there is no more connection.  It looks at three
values of `errno`; after any other error it goes on with the descriptor -1, which it
closes or makes a connection of.
-/

namespace Freekick

open Lib.Steps

/-- What `accept` returns: a descriptor, or -1 with `EINTR`, with `EAGAIN` or
`EWOULDBLOCK`, or with another error. -/
inductive Accept where
  | fd (fd : Int)
  | eintr
  | eagain
  | other
  deriving DecidableEq, Repr

/-- The table of connections and their count in the server, and the descriptors of clients
that are open. -/
structure FkConns where
  connsTab : Int → Option FkConnType
  connCnt : Int
  opened : Finset Int

def fkConnsInit : FkConns := ⟨fun _ => none, 0, ∅⟩

def fkConnFakeFd : Int := -1

namespace FkConns

/-- `close`; a descriptor that is not open is an error without an effect. -/
def close (conns : FkConns) (fd : Int) : FkConns := { conns with opened := conns.opened.erase fd }

/-- The type that `fk_conn_create` gives to a connection. -/
def connType (fd : Int) : FkConnType := if fd ≠ fkConnFakeFd then .real else .fake

/-- The table has no entry for -1; the model has one, so that it shows the write. -/
def fkSvrAddConn (conns : FkConns) (fd : Int) : FkConns :=
  { conns with
    connsTab := Function.update conns.connsTab fd (some (connType fd))
    connCnt := conns.connCnt + 1 }

/-- With the `close` of `fk_conn_destroy`. -/
def fkSvrRemoveConn (conns : FkConns) (fd : Int) : FkConns :=
  let removed :=
    { conns with connsTab := Function.update conns.connsTab fd none, connCnt := conns.connCnt - 1 }
  if fd ≠ fkConnFakeFd then removed.close fd else removed

end FkConns

/-- The server after some calls of `accept`, the descriptors that were added, and the
outcomes that are left when the callback returned; `none` while it is in its loop. -/
structure Listened where
  conns : FkConns
  added : List Int
  left : Option (List Accept)

section Loop

variable (maxConns : Nat)

/-- `fk_svr_listen_cb` with the outcomes of `accept`.  `none` means that `accept` does not
return this: a new descriptor is not negative and was not open. -/
def fkSvrListenCb : List Accept → FkConns → Option Listened
  | [], conns => some ⟨conns, [], none⟩
  | .eintr :: rest, conns => fkSvrListenCb rest conns
  | .eagain :: rest, conns => some ⟨conns, [], some rest⟩
  | .fd fd :: rest, conns =>
      if 0 ≤ fd ∧ fd ∉ conns.opened then
        let accepted := { conns with opened := insert fd conns.opened }
        if conns.connCnt = maxConns then fkSvrListenCb rest (accepted.close fd)
        else (fkSvrListenCb rest (accepted.fkSvrAddConn fd)).map fun later =>
          { later with added := fd :: later.added }
      else none
  | .other :: rest, conns =>
      -- The error falls through with a negative descriptor.
      if conns.connCnt = maxConns then fkSvrListenCb rest (conns.close (-1))
      else (fkSvrListenCb rest (conns.fkSvrAddConn (-1))).map fun later =>
        { later with added := -1 :: later.added }

/-- The listening descriptor is ready, with what `accept` returns until the callback does;
or a connection of the table is closed. -/
inductive ConnEvent where
  | listen (outcomes : List Accept)
  | close (fd : Int)

/-- `none` is an event that cannot happen there. -/
def FkConns.step (conns : FkConns) : ConnEvent → Option FkConns
  | .listen outcomes => (fkSvrListenCb maxConns outcomes conns).bind fun result =>
      if result.left = some [] then some result.conns else none
  | .close fd => if conns.connsTab fd = some .real then some (conns.fkSvrRemoveConn fd) else none

end Loop

/-! ## What should hold -/

/-- The table holds the open descriptors, and the count counts them. -/
structure FkConns.Counted (maxConns : Nat) (conns : FkConns) : Prop where
  descriptors : ∀ fd ∈ conns.opened, 0 ≤ fd
  registered : ∀ fd, (conns.connsTab fd).isSome ↔ fd ∈ conns.opened
  count : conns.connCnt = conns.opened.card
  limit : conns.connCnt ≤ maxConns

/-- What is left after the first failure other than `EINTR`. -/
def afterFailure : List Accept → Option (List Accept)
  | [] => none
  | .fd _ :: rest => afterFailure rest
  | .eintr :: rest => afterFailure rest
  | .eagain :: rest => some rest
  | .other :: rest => some rest

/-- The callback adds descriptors only, returns after the first failure other than `EINTR`,
and leaves table and count right. -/
structure Listened.Right (maxConns : Nat) (outcomes : List Accept) (result : Listened) : Prop where
  added : ∀ fd ∈ result.added, 0 ≤ fd
  returned : result.left = afterFailure outcomes
  counted : result.conns.Counted maxConns

/-- No call fails with another error before one finds no more connection. -/
def Ordinary : List Accept → Prop
  | [] => True
  | .fd _ :: rest => Ordinary rest
  | .eintr :: rest => Ordinary rest
  | .eagain :: _ => True
  | .other :: _ => False

def OrdinaryEvent (_ : FkConns) : ConnEvent → Prop
  | .listen outcomes => Ordinary outcomes
  | .close _ => True

/-! ## Connections come and go -/

/-- A connection above the limit. -/
theorem FkConns.accept_close {conns : FkConns} {fd : Int} (fresh : fd ∉ conns.opened) :
    ({ conns with opened := insert fd conns.opened } : FkConns).close fd = conns := by
  unfold FkConns.close
  rw [Finset.erase_insert fresh]

namespace FkConns.Counted

variable {maxConns : Nat} {conns : FkConns} {fd : Int}

theorem accept_add (counted : conns.Counted maxConns) (descriptor : 0 ≤ fd)
    (fresh : fd ∉ conns.opened) (room : conns.connCnt ≠ maxConns) :
    (({ conns with opened := insert fd conns.opened } : FkConns).fkSvrAddConn fd).Counted
      maxConns where
  descriptors := by
    intro other member
    rcases Finset.mem_insert.mp member with rfl | old
    · exact descriptor
    · exact counted.descriptors other old
  registered := by
    intro other
    change (Function.update conns.connsTab fd _ other).isSome ↔ other ∈ insert fd conns.opened
    rw [Finset.mem_insert]
    by_cases same : other = fd
    · rw [same, Function.update_self]
      exact iff_of_true rfl (.inl rfl)
    · rw [Function.update_of_ne same, counted.registered, or_iff_right same]
  count := by
    change conns.connCnt + 1 = ((insert fd conns.opened).card : Int)
    rw [Finset.card_insert_of_notMem fresh, counted.count]
    rfl
  limit := by
    have limit := counted.limit
    change conns.connCnt + 1 ≤ maxConns
    omega

theorem remove (counted : conns.Counted maxConns) (connected : conns.connsTab fd = some .real) :
    (conns.fkSvrRemoveConn fd).Counted maxConns := by
  have member : fd ∈ conns.opened := (counted.registered fd).mp (by rw [connected]; rfl)
  have descriptor := counted.descriptors fd member
  have differs : fd ≠ fkConnFakeFd := by
    intro fake
    rw [fake] at descriptor
    exact absurd descriptor (by decide)
  unfold FkConns.fkSvrRemoveConn
  dsimp only
  rw [if_pos differs]
  refine ⟨fun other kept => ?_, fun other => ?_, ?_, ?_⟩
  · exact counted.descriptors other (Finset.mem_of_mem_erase kept)
  · change (Function.update conns.connsTab fd none other).isSome ↔ other ∈ conns.opened.erase fd
    rw [Finset.mem_erase]
    by_cases same : other = fd
    · rw [same, Function.update_self]
      exact iff_of_false nofun fun both => both.1 rfl
    · rw [Function.update_of_ne same, counted.registered]
      exact (and_iff_right same).symm
  · change conns.connCnt - 1 = ((conns.opened.erase fd).card : Int)
    have positive := Finset.card_pos.mpr ⟨fd, member⟩
    rw [Finset.card_erase_of_mem member, counted.count]
    omega
  · have limit := counted.limit
    change conns.connCnt - 1 ≤ maxConns
    omega

end FkConns.Counted

/-! ## The loop -/

section Right

variable {maxConns : Nat} {outcomes : List Accept} {conns : FkConns} {result : Listened}

/-- Each call of `accept` takes an outcome. -/
theorem fkSvrListenCb_shorter {rest : List Accept}
    (called : fkSvrListenCb maxConns outcomes conns = some result)
    (left : result.left = some rest) : rest.length < outcomes.length := by
  induction outcomes generalizing conns result with
  | nil =>
      cases called
      cases left
  | cons outcome outcomes ih =>
      rw [List.length_cons]
      cases outcome with
      | eintr => exact Nat.lt_succ_of_lt (ih called left)
      | eagain =>
          cases called
          cases left
          exact Nat.lt_succ_self _
      | fd fd =>
          rw [fkSvrListenCb] at called
          split at called
          · dsimp only at called
            split at called
            · exact Nat.lt_succ_of_lt (ih called left)
            · obtain ⟨later, went, rfl⟩ := Option.map_eq_some_iff.mp called
              exact Nat.lt_succ_of_lt (ih went left)
          · cases called
      | other =>
          rw [fkSvrListenCb] at called
          split at called
          · exact Nat.lt_succ_of_lt (ih called left)
          · obtain ⟨later, went, rfl⟩ := Option.map_eq_some_iff.mp called
            exact Nat.lt_succ_of_lt (ih went left)

/-- After an error that it does not look at, the callback goes on or adds -1. -/
theorem not_right_other (called : fkSvrListenCb maxConns (.other :: outcomes) conns = some result) :
    ¬ result.Right maxConns (.other :: outcomes) := by
  intro right
  rw [fkSvrListenCb] at called
  split at called
  · exact Nat.lt_irrefl _ (fkSvrListenCb_shorter called right.returned)
  · obtain ⟨later, went, rfl⟩ := Option.map_eq_some_iff.mp called
    exact absurd (right.added (-1) (List.mem_cons_self ..)) (by decide)

/-- The callback does right exactly when `accept` fails in the expected ways. -/
theorem fkSvrListenCb_right_iff (counted : conns.Counted maxConns)
    (called : fkSvrListenCb maxConns outcomes conns = some result) :
    result.Right maxConns outcomes ↔ Ordinary outcomes := by
  induction outcomes generalizing conns result with
  | nil =>
      cases called
      exact iff_of_true ⟨nofun, rfl, counted⟩ trivial
  | cons outcome outcomes ih =>
      cases outcome with
      | eintr =>
          refine Iff.trans ⟨fun right => ?_, fun right => ?_⟩ (ih counted called)
          · exact ⟨right.added, right.returned, right.counted⟩
          · exact ⟨right.added, right.returned, right.counted⟩
      | eagain =>
          cases called
          exact iff_of_true ⟨nofun, rfl, counted⟩ trivial
      | fd fd =>
          rw [fkSvrListenCb] at called
          split at called
          · next new =>
              dsimp only at called
              split at called
              · rw [FkConns.accept_close new.2] at called
                refine Iff.trans ⟨fun right => ?_, fun right => ?_⟩ (ih counted called)
                · exact ⟨right.added, right.returned, right.counted⟩
                · exact ⟨right.added, right.returned, right.counted⟩
              · next room =>
                  obtain ⟨later, went, rfl⟩ := Option.map_eq_some_iff.mp called
                  refine Iff.trans ⟨fun right => ?_, fun right => ?_⟩
                    (ih (counted.accept_add new.1 new.2 room) went)
                  · exact ⟨fun other member => right.added other (List.mem_cons_of_mem _ member),
                      right.returned, right.counted⟩
                  · exact ⟨List.forall_mem_cons.mpr ⟨new.1, right.added⟩, right.returned,
                      right.counted⟩
          · cases called
      | other => exact iff_of_false (not_right_other called) id

theorem FkConns.step_counted {next : FkConns} {event : ConnEvent} (counted : conns.Counted maxConns)
    (ordinary : OrdinaryEvent conns event) (stepped : conns.step maxConns event = some next) :
    next.Counted maxConns := by
  cases event with
  | listen outcomes =>
      obtain ⟨result, called, returned⟩ := Option.bind_eq_some_iff.mp stepped
      split at returned <;> cases returned
      exact ((fkSvrListenCb_right_iff counted called).mpr ordinary).counted
  | close fd =>
      rw [FkConns.step] at stepped
      split at stepped <;> cases stepped
      next connected => exact counted.remove connected

/-- In a run without other errors of `accept`, table and count are right in every state, and
from there the callback does right exactly when it meets no other error. -/
theorem fkSvrListenCb_run_right_iff {events : List ConnEvent}
    (ordinary : Throughout (FkConns.step maxConns) OrdinaryEvent fkConnsInit events)
    (reached : run (FkConns.step maxConns) fkConnsInit events = some conns) :
    conns.Counted maxConns ∧ ∀ outcomes result,
      fkSvrListenCb maxConns outcomes conns = some result →
      (result.Right maxConns outcomes ↔ Ordinary outcomes) := by
  have start : fkConnsInit.Counted maxConns :=
    ⟨fun fd member => absurd member (Finset.notMem_empty fd),
      fun fd => iff_of_false nofun (Finset.notMem_empty fd), rfl, Int.natCast_nonneg maxConns⟩
  have counted : conns.Counted maxConns := @run_keeps _ _ _ _ _ _ _ _ (fun _ => True)
    (fun conns event next counted _ ordinary stepped =>
      FkConns.step_counted counted ordinary stepped) start
    (fun _ _ => trivial) ordinary reached
  exact ⟨counted, fun outcomes result called => fkSvrListenCb_right_iff counted called⟩

end Right

/-- Two clients connect, a signal comes in between, and the first one leaves. -/
def listenEvents : List ConnEvent := [.listen [.fd 5, .eintr, .fd 6, .eagain], .close 5]

theorem fkSvrListenCb_run_right_iff_two :
    ∃ conns, run (FkConns.step 2) fkConnsInit listenEvents = some conns ∧ conns.connCnt = 1 ∧
      conns.Counted 2 ∧ ∀ outcomes result, fkSvrListenCb 2 outcomes conns = some result →
      (result.Right 2 outcomes ↔ Ordinary outcomes) := by
  have known : (run (FkConns.step 2) fkConnsInit listenEvents).map FkConns.connCnt = some 1 :=
    by decide +kernel
  obtain ⟨conns, reached, count⟩ := Option.map_eq_some_iff.mp known
  have ordinary : Throughout (FkConns.step 2) OrdinaryEvent fkConnsInit listenEvents :=
    ⟨trivial, fun _ _ => ⟨trivial, fun _ _ => trivial⟩⟩
  exact ⟨conns, reached, count, fkSvrListenCb_run_right_iff ordinary reached⟩

/-- The first `accept` of an empty server fails three times with an error such as `EMFILE`:
two connections -1 are added, and the callback does not return. -/
theorem fkSvrListenCb_not_right :
    ∃ result, fkSvrListenCb 2 [.other, .other, .other] fkConnsInit = some result ∧
      result.added = [-1, -1] ∧ result.conns.connCnt = 2 ∧ result.conns.opened = ∅ ∧
      result.left = none ∧ ¬ result.Right 2 [.other, .other, .other] := by
  have known : (fkSvrListenCb 2 [.other, .other, .other] fkConnsInit).map (fun result =>
      (result.added, result.conns.connCnt, result.conns.opened, result.left)) = some
      ([-1, -1], 2, ∅, none) := by
    decide +kernel
  obtain ⟨result, called, parts⟩ := Option.map_eq_some_iff.mp known
  obtain ⟨added, count, opened, left⟩ : _ = _ ∧ _ = _ ∧ _ = _ ∧ _ = _ :=
    by simpa only [Prod.mk.injEq] using parts
  refine ⟨result, called, added, count, opened, left, fun right => ?_⟩
  have returned := right.returned
  rw [left] at returned
  cases returned

end Freekick
