import Freekick.Server.Refine
import Freekick.Store.Terms

/-!
# What clients read

Every request of a client that stays connected is answered once, in order: the bytes that went
out to it and those that wait for it are the replies to its requests, one after the other.
What else happens on the server does not get in between.
-/

namespace Freekick

open Lib.Call Lib.Steps

/-- A client is told one term for each of its requests, and the terms are what was sent and
what waits. -/
structure Owes (junk : Nat → UInt8) (commands : List (List Bytes)) (spoken : Spoken)
    (out : FkConnOut) : Prop where
  count : spoken.terms.length = commands.length
  bytes : spoken.sent ++ out.wbuf.payload = spoken.terms.flatMap (Reply.queued junk)

/-- The server on commands between two moments. -/
structure Owed (junk : Nat → UInt8) (past : List Moment) (noted : FkSystem × Notes) : Prop where
  rubbish : noted.1.svr.junk = junk
  sound : noted.1.Sound
  positive : 0 < noted.1.svr.dbcnt
  fits : ∀ client, ∀ term ∈ (noted.2 client).terms, term.Fits
  owes : ∀ client out, noted.1.conns client = some out →
    Owes junk (commandsOf client past) (noted.2 client) out

theorem Moment.Asks.admitted {moment : Moment} (asks : moment.Asks Freekick.Admitted) :
    moment.Admitted := by
  cases moment with
  | sweep rand fuel => trivial
  | serve event =>
      cases event with
      | command client args => exact asks
      | _ => trivial

theorem asked_own (client : Nat) (commands : List (List Bytes)) (args : List Bytes) :
    asked client commands (.serve (.command client args)) = commands ++ [args] := if_pos rfl

theorem asked_anew (client : Nat) (commands : List (List Bytes)) :
    asked client commands (.serve (.connect client)) = [] := if_pos rfl

section Step

variable {fkCmdEval : Handler} {maxWbuf : Nat} {junk : Nat → UInt8} {past : List Moment}
  {noted next : FkSystem × Notes}

/-- A client that a moment leaves alone. -/
theorem Owes.kept {moment : Moment} {client : Nat} {spoken : Spoken} {out : FkConnOut}
    (owes : Owes junk (commandsOf client past) spoken out)
    (silent : ∀ commands, asked client commands moment = commands) :
    Owes junk (commandsOf client (past ++ [moment])) spoken out := by
  rw [commandsOf_append]
  change Owes junk (asked client (commandsOf client past) moment) spoken out
  rwa [silent]

/-- A moment that changes one connection, and the databases. -/
theorem owed_setConn {event : Event} {client : Nat} {svr : FkSvr} {conn : Option FkConnOut}
    {spoken : Spoken} (owed : Owed junk past noted)
    (sound : (({ noted.1 with svr := svr }).setConn client conn).Sound)
    (same : svr.junk = noted.1.svr.junk) (dbcnt : svr.dbcnt = noted.1.svr.dbcnt)
    (silent : ∀ other ≠ client, ∀ commands, asked other commands (.serve event) = commands)
    (fits : ∀ term ∈ spoken.terms, term.Fits)
    (own : ∀ out, conn = some out →
      Owes junk (asked client (commandsOf client past) (.serve event)) spoken out) :
    Owed junk (past ++ [.serve event])
      (({ noted.1 with svr := svr }).setConn client conn,
        Function.update noted.2 client spoken) where
  rubbish := same.trans owed.rubbish
  sound := sound
  positive := Nat.lt_of_lt_of_eq owed.positive dbcnt.symm
  fits := by
    intro other
    change ∀ term ∈ (Function.update noted.2 client spoken other).terms, term.Fits
    by_cases same : other = client
    · rw [same, Function.update_self]
      exact fits
    · rw [Function.update_of_ne same]
      exact owed.fits other
  owes := by
    intro other out connected
    change Function.update noted.1.conns client conn other = some out at connected
    change Owes junk _ (Function.update noted.2 client spoken other) out
    by_cases same : other = client
    · subst same
      rw [Function.update_self] at connected ⊢
      rw [commandsOf_append]
      exact own out connected
    · rw [Function.update_of_ne same] at connected ⊢
      exact (owed.owes other out connected).kept (silent other same)

theorem owed_command {client : Nat} {args : List Bytes} {after : FkSystem}
    (owed : Owed junk past noted) (admitted : Admitted args)
    (stepped : noted.1.command fkCmdEval client args = some after) :
    Owed junk (past ++ [.serve (.command client args)])
      (after, noted.2.note noted.1 (.serve (.command client args))) := by
  have sound : after.Sound :=
    (@FkSystem.step_sound fkCmdEval 0 _ _ (.command client args) owed.positive admitted
      owed.sound stepped).1
  have others : ∀ other ≠ client, ∀ commands,
      asked other commands (.serve (.command client args)) = commands :=
    fun other apart _ => if_neg (Ne.symm apart)
  have commanded := FkSystem.command_commanded admitted owed.sound.ok owed.sound.timed stepped
  -- What the notes are when the client is connected and the command has an answer.
  have answered {out : FkConnOut} {answer : Answer} (connected : noted.1.conns client = some out)
      (ran : Work.answer ⟨noted.1.svr, out⟩ noted.1.svr.spaces (cmdOf args) = some answer) :
      noted.2.note noted.1 (.serve (.command client args)) = noted.2.answer client answer.reply ∧
        ∀ term ∈ (noted.2 client).terms ++ [answer.reply], term.Fits := by
    refine ⟨?_, fun term member => ?_⟩
    · unfold Notes.note
      dsimp only
      rw [connected]
      dsimp only
      rw [ran]
    · rcases List.mem_append.mp member with old | new
      · exact owed.fits client term old
      · rw [List.mem_singleton.mp new]
        exact admitted.admissible.fits owed.sound.ok ran
  cases commanded with
  | absent gone =>
      have quiet : noted.2.note noted.1 (.serve (.command client args)) = noted.2 := by
        unfold Notes.note
        dsimp only
        rw [gone]
      have same : ({ noted.1 with svr := noted.1.svr } : FkSystem).setConn client none =
          noted.1 := by
        unfold FkSystem.setConn
        rw [← gone, Function.update_eq_self]
      have kept := @owed_setConn junk past noted (.command client args) client noted.1.svr none
        (noted.2 client) owed (by rw [same]; exact owed.sound) rfl rfl others
          (owed.fits client) nofun
      rw [same, Function.update_eq_self] at kept
      rwa [quiet]
  | refused connected ran queued cut leaves =>
      obtain ⟨noting, fits⟩ := answered connected ran
      rw [noting]
      exact owed_setConn owed sound leaves.junk leaves.dbcnt others fits nofun
  | @done out answer wbuf after connected ran queued leaves =>
      obtain ⟨noting, fits⟩ := answered connected ran
      obtain ⟨space, queue⟩ := queued_of_ok queued
      have owes := owed.owes client out connected
      rw [noting]
      refine owed_setConn owed sound leaves.junk leaves.dbcnt others fits ?_
      rintro _ ⟨⟩
      refine ⟨?_, ?_⟩
      · rw [asked_own, List.length_append, List.length_append, owes.count]
        rfl
      · change (noted.2 client).sent ++ wbuf.payload = _
        rw [queue.payload, ← List.append_assoc, owes.bytes, List.flatMap_append,
          List.flatMap_singleton, owed.rubbish]
        rfl

theorem owed_step {moment : Moment} (owed : Owed junk past noted) (admitted : moment.Admitted)
    (stepped : FkSystem.noted fkCmdEval maxWbuf noted moment = some next) :
    Owed junk (past ++ [moment]) next := by
  obtain ⟨after, moved, rfl⟩ := Option.map_eq_some_iff.mp stepped
  obtain ⟨sound, dbcnt⟩ := FkSystem.moment_sound owed.positive admitted owed.sound moved
  cases moment with
  | sweep rand fuel =>
      obtain ⟨final, called, rfl⟩ := Option.map_eq_some_iff.mp moved
      have kept := @sweepLoop_keeps ArgName rand 0 fuel ⟨noted.1.svr, 0, []⟩ final owed.sound.ok
        owed.sound.timed called
      have same : final.svr.junk = noted.1.svr.junk :=
        congrArg (fun parts => parts.2.2.2.2.2) kept.frame
      refine ⟨same.trans owed.rubbish, sound, Nat.lt_of_lt_of_eq owed.positive dbcnt.symm,
        owed.fits, fun client out connected => ?_⟩
      exact (owed.owes client out connected).kept fun _ => rfl
  | serve event =>
      cases event with
      | command client args =>
          exact @owed_command fkCmdEval junk past noted client args after owed admitted moved
      | connect client =>
          cases moved
          refine @owed_setConn junk past noted (.connect client) client noted.1.svr _
            ⟨[], []⟩ owed sound rfl rfl (fun other apart _ => if_neg (Ne.symm apart)) nofun ?_
          rintro _ ⟨⟩
          refine ⟨?_, rfl⟩
          rw [asked_anew]
          rfl
      | sent client count =>
          cases moved
          cases connected : noted.1.conns client with
          | none =>
              have quiet : noted.2.note noted.1 (.serve (.sent client count)) = noted.2 := by
                unfold Notes.note
                dsimp only
                rw [connected]
              have kept := @owed_setConn junk past noted (.sent client count) client noted.1.svr
                none (noted.2 client) owed (by rw [connected] at sound; exact sound) rfl rfl
                  (fun _ _ _ => rfl) (owed.fits client) nofun
              rw [quiet]
              rwa [Function.update_eq_self] at kept
          | some out =>
              have noting : noted.2.note noted.1 (.serve (.sent client count)) = noted.2.send client
                  (out.wbuf.payload.take count) := by
                unfold Notes.note
                dsimp only
                rw [connected]
              have owes := owed.owes client out connected
              rw [connected] at sound
              rw [noting, Option.map_some]
              refine @owed_setConn junk past noted (.sent client count) client noted.1.svr _ _ owed
                sound rfl rfl (fun _ _ _ => rfl) (owed.fits client) ?_
              rintro _ ⟨⟩
              refine ⟨owes.count, ?_⟩
              -- The bytes only change sides.
              change ((noted.2 client).sent ++ out.wbuf.payload.take count) ++
                ((out.wbuf.fkBufLowInc count).fkBufShrink).payload = _
              rw [FkBuf.payload_fkBufShrink, FkBuf.payload_fkBufLowInc, List.append_assoc,
                List.take_append_drop]
              exact owes.bytes
      | close client =>
          cases moved
          have kept := @owed_setConn junk past noted (.close client) client noted.1.svr none
            (noted.2 client) owed sound rfl rfl (fun _ _ _ => rfl) (owed.fits client) nofun
          rwa [Function.update_eq_self] at kept

theorem owed_run {moments : List Moment} (owed : Owed junk past noted)
    (admitted : ∀ moment ∈ moments, moment.Admitted)
    (reached : run (FkSystem.noted fkCmdEval maxWbuf) noted moments = some next) :
    Owed junk (past ++ moments) next := by
  induction moments generalizing past noted with
  | nil =>
      cases reached
      rwa [List.append_nil]
  | cons moment rest ih =>
      obtain ⟨middle, stepped, later⟩ := Option.bind_eq_some_iff.mp reached
      obtain ⟨here, there⟩ := List.forall_mem_cons.mp admitted
      have kept := ih (owed_step owed here stepped) there later
      rwa [List.append_assoc] at kept

theorem fkSystemInit_owed {dbcnt : Nat} (positive : 0 < dbcnt) (blogOn : Bool) (clock : Nat → Int)
    (junk : Nat → UInt8) :
    Owed junk [] (fkSystemInit dbcnt blogOn clock junk, notesInit) where
  rubbish := rfl
  sound := fkSystemInit_sound dbcnt blogOn clock junk
  positive := positive
  fits := nofun
  owes := nofun

end Step

/-! ## Whole runs -/

/-- A request that is not a script. -/
def NotEval (args : List Bytes) : Prop := fkStr2upper (args.headD []) ≠ ascii "EVAL"

instance (args : List Bytes) : Decidable (NotEval args) := inferInstanceAs (Decidable (_ ≠ _))

theorem asks_admitted (server : FkServer) (wake : Wake) : wake.Asks Admitted server ↔
    wake.Asks NotEval server := by
  cases wake with
  | readCb client results =>
      refine forall₂_congr fun args output => ⟨fun admitted => admitted.notEval, fun notEval => ?_⟩
      exact (admissible_of_output output).admitted notEval
  | _ => exact Iff.rfl

/-- Whatever the sockets do and however the clients take turns: the server answers as it does on
some run of whole commands, and every client that is connected reads one reply to each of its
requests, in their order.  As long as no scripts are sent, nothing is lost, repeated or given to
another client. -/
theorem fkServer_answers {fkCmdEval : Handler} {maxWbuf dbcnt : Nat} {blogOn : Bool}
    {clock : Nat → Int} {junk : Nat → UInt8} {wakes : List Wake} {server : FkServer}
    (positive : 0 < dbcnt) (plain :
      Throughout (FkServer.step fkCmdEval maxWbuf) (fun server wake => wake.Asks NotEval server)
      (fkServerInit dbcnt blogOn clock junk) wakes)
    (reached : run (FkServer.step fkCmdEval maxWbuf) (fkServerInit dbcnt blogOn clock junk) wakes =
      some server) :
    ∃ moments notes, run (FkSystem.noted fkCmdEval maxWbuf)
      (fkSystemInit dbcnt blogOn clock junk, notesInit) moments =
        some (server.system, notes) ∧
      (∀ client, commandsOf client moments =
        (requestMachine.run .idle (server.sockets client).received).outputs) ∧
      ∀ client info, server.clients client = some info →
        (notes client).terms.length =
          (requestMachine.run .idle (server.sockets client).received).outputs.length ∧
        (server.sockets client).sent ++ info.wbuf.payload = (notes client).terms.flatMap
          (Reply.queued junk) ∧
        ((∀ term ∈ (notes client).terms, ∀ value ∈ term.values, (0 : UInt8) ∉ value) →
          (server.sockets client).sent ++ info.wbuf.payload = (notes client).terms.flatMap
            Reply.wire) := by
  have start := fkServerInit_matches Admitted dbcnt blogOn clock junk
  have asks := (@throughout_iff _ _ (FkServer.step fkCmdEval maxWbuf) _ _ wakes (fun _ => True) _
    (fun server wake _ => asks_admitted server wake) (fun _ _ _ _ _ _ => trivial) trivial).mpr plain
  obtain ⟨moments, ⟨sys, notes⟩, ran, after⟩ := run_matches start asks reached
  have owed := owed_run (fkSystemInit_owed positive blogOn clock junk)
    (fun moment member => (after.asks moment member).admitted) ran
  have outputs : ∀ client, commandsOf client moments =
      (requestMachine.run .idle (server.sockets client).received).outputs :=
    fun client => (after.asked client).symm
  rw [after.system]
  refine ⟨moments, notes, ran, outputs, fun client info connected => ?_⟩
  have conn : sys.conns client = some info.out := by
    have known := @Matches.conn _ _ client _ _ after
    rw [connected] at known
    exact known
  have owes := owed.owes client info.out conn
  have sent : (server.sockets client).sent = (notes client).sent := after.sent client
  rw [← outputs client, sent]
  refine ⟨owes.count, owes.bytes, fun free => ?_⟩
  rw [← List.flatMap_congr fun term member => (owed.fits client term member).queued_wire junk
    (free term member)]
  exact owes.bytes

/-- A `SET` that comes in two parts, with a `GET` of another client between them and one behind;
the second client reads its answers a few bytes at a time. -/
def slicedWakes : List Wake :=
  [.accept 0, .accept 1, .arrive 0 ((enc [ascii "SET", ascii "k", ascii "v"]).take 7),
    .readCb 0 [.holds 99], .arrive 1 (enc [ascii "GET", ascii "k"]),
    .readCb 1 [.holds 99, .holds 99], .arrive 0 ((enc [ascii "SET", ascii "k", ascii "v"]).drop 7),
    .readCb 0 [.holds 2], .readCb 0 [.holds 99, .holds 99],
    .arrive 1 (enc [ascii "get", ascii "k"]), .readCb 1 [.holds 99, .holds 99], .ready 1,
    .writeCb 1 [.takes 2, .takes 3], .ready 1, .writeCb 1 [.takes 99]]

theorem fkServer_answers_sliced : ∃ server, run (FkServer.step (fun _ => Act.fault) 1024)
      (fkServerInit 1 false (fun _ => 0) (fun _ => 0)) slicedWakes = some server ∧
    (server.sockets 1).sent = ascii "$-1\r\n$1\r\nv\r\n" ∧
    ∃ moments notes, run (FkSystem.noted (fun _ => Act.fault) 1024)
      (fkSystemInit 1 false (fun _ => 0) (fun _ => 0), notesInit)
        moments = some (server.system, notes) ∧
      ∀ info, server.clients 1 = some info →
        (server.sockets 1).sent ++ info.wbuf.payload = (notes 1).terms.flatMap
        (Reply.queued fun _ => 0) := by
  have plain : Throughout (FkServer.step (fun _ => Act.fault) 1024)
      (fun server wake => wake.Asks NotEval server) (fkServerInit 1 false (fun _ => 0) (fun _ => 0))
        slicedWakes := by decide +kernel
  have sent : (run (FkServer.step (fun _ => Act.fault) 1024)
      (fkServerInit 1 false (fun _ => 0) (fun _ => 0))
      slicedWakes).map (fun server => (server.sockets 1).sent) = some
        (ascii "$-1\r\n$1\r\nv\r\n") := by decide +kernel
  obtain ⟨server, reached, told⟩ := Option.map_eq_some_iff.mp sent
  obtain ⟨moments, notes, ran, _, clients⟩ := fkServer_answers (by decide) plain reached
  exact ⟨server, reached, told, moments, notes, ran, fun info connected =>
    (clients 1 info connected).2.1⟩

end Freekick
