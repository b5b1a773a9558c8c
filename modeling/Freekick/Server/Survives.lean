import Freekick.Net.Brim
import Freekick.Server.Refine
import Freekick.Store.Hale

/-!
# No client brings the server down

Whatever bytes the clients send, as long as they ask for neither `EVAL` nor `ZADD` and the
sweeps end, no callback crashes, and what the server keeps for a connection is bounded.
-/

namespace Freekick

open Lib.Call Lib.Resume Lib.Steps

/-! ## Read buffers -/

namespace FkBuf.Sized

variable {buf : FkBuf}

theorem fkBufShift (sized : buf.Sized) : buf.fkBufShift.Sized := by
  obtain ⟨highwat, initLen, doubled, most, len⟩ := sized
  constructor
  · exact (fkBufShift_highwat buf).trans highwat
  · exact (fkBufShift_initLen buf).trans initLen
  · exact ⟨doubled, most, (fkBufShift_len buf).trans len⟩

theorem fkBufStretch (sized : buf.Sized) : buf.fkBufStretch.Sized := by
  obtain ⟨highwat, initLen, doubled, most, len⟩ := sized
  unfold FkBuf.fkBufStretch
  split
  · next small =>
      refine ⟨highwat, initLen, doubled + 1, ?_, ?_⟩
      · rcases Nat.lt_or_ge doubled 18 with below | above
        · exact below
        · obtain rfl : doubled = 18 := Nat.le_antisymm most above
          rw [len, highwat] at small
          exact absurd small (by decide)
      · change buf.len <<< 1 = _
        rw [len, Nat.shiftLeft_eq, Nat.pow_one, Nat.mul_assoc, ← Nat.pow_succ]
  · exact ⟨highwat, initLen, doubled, most, len⟩

theorem ready (sized : buf.Sized) : buf.ready.Sized := by
  have moved : buf.moved.Sized := by
    unfold FkBuf.moved
    split
    · exact sized.fkBufShift
    · exact sized
  unfold FkBuf.ready
  split
  · exact moved.fkBufStretch
  · exact moved

theorem append (sized : buf.Sized) (bytes : Bytes) : (buf.append bytes).Sized :=
  ⟨sized.highwat, sized.initLen, sized.len⟩

theorem fkBufShrink (sized : buf.Sized) : buf.fkBufShrink.Sized := by
  unfold FkBuf.fkBufShrink
  split
  · constructor
    · exact sized.fkBufShift.highwat
    · exact sized.fkBufShift.initLen
    · exact ⟨0, Nat.zero_le _, sized.initLen⟩
  · exact sized

theorem len_le (sized : buf.Sized) : buf.len ≤ fkBufHighwat := by
  obtain ⟨doubled, most, len⟩ := sized.len
  rw [len]
  exact Nat.mul_le_mul_left fkBufInitLen (Nat.pow_le_pow_right Nat.two_pos most)

end FkBuf.Sized

section Passes

variable {σ : Type} {proc : Proc σ} {reader : Reader σ}

theorem pass_sized (sized : reader.conn.rbuf.Sized) (result : RecvRt) :
    (reader.pass proc result).2.conn.rbuf.Sized := by
  have ready := sized.ready
  have served (bytes rest : Bytes) :
      (Reader.serve proc
        { reader with
          conn := { reader.conn with rbuf := reader.conn.rbuf.ready.append bytes }
          stream := rest }).conn.rbuf.Sized :=
    (ready.append bytes).of_frame (reqLoop_frame proc _ _ _)
  unfold Reader.pass fkConnRecvData
  dsimp only
  split
  · exact ready
  · split
    · exact ready
    · split
      · exact ready
      · split
        · exact served _ _
        · exact served _ _

theorem passes_sized (sized : reader.conn.rbuf.Sized) (results : List RecvRt) :
    (reader.passes proc results).conn.rbuf.Sized := by
  induction results generalizing reader with
  | nil => exact pass_sized sized .again
  | cons result rest ih =>
      have first := @pass_sized σ proc reader sized result
      rw [Reader.passes]
      dsimp only
      split
      · exact ih first
      · exact first

end Passes

/-! ## Requests that are not complete -/

/-- What the machine remembers is small. -/
structure Request.Small (request : Request) : Prop where
  expected : request.expected ≤ fkArgCntHighwat
  args : ∀ arg ∈ request.args, arg.length ≤ fkArgHighwat
  within : request.Within

theorem requestStep_small {request next : Request} {payload : Bytes} {used : Nat}
    {output : Option (List Bytes)} (small : request.Small)
    (verdict : requestStep request payload = .move used next output) : next.Small := by
  have within := requestStep_within verdict
  obtain ⟨nonempty, moves⟩ := requestStep_move verdict
  rcases moves with ⟨argc, room, _, read, rfl, _⟩ | ⟨expected, args, argl, room, rfl, _, rfl, _⟩ |
    ⟨expected, args, argLen, room, rfl, enough, _, _, _, final⟩
  · obtain ⟨_, _, _, _, most, _⟩ := (argLine_number_iff cntLine_lawful nonempty).mp read
    exact ⟨most, fun arg member => absurd member List.not_mem_nil, within⟩
  · exact ⟨small.expected, small.args, within⟩
  · unfold argVerdict at final
    split at final
    · cases final
      refine ⟨small.expected, fun arg member => ?_, within⟩
      rcases List.mem_append.mp member with old | last
      · exact small.args arg old
      · rw [List.mem_singleton.mp last]
        exact Nat.le_trans (List.length_take_le _ _) small.within
    · cases final
      exact ⟨Nat.zero_le _, fun arg member => absurd member List.not_mem_nil, within⟩

theorem run_small {request : Request} {payload : Bytes} (small : request.Small) :
    (requestMachine.run request payload).state.Small := by
  induction request, payload using requestMachine.run_induction with
  | wait request payload verdict =>
      rw [requestMachine.run_wait verdict]
      exact small
  | fail request payload verdict =>
      rw [requestMachine.run_fail verdict]
      exact small
  | move request payload used next output verdict ih =>
      rw [requestMachine.run_move verdict]
      exact ih (requestStep_small small verdict)

/-! ## What the server keeps for a connection -/

/-- The buffers, the argument slots and the arguments in them have limits. -/
structure FkClient.Bounded (maxWbuf : Nat) (info : FkClient) : Prop where
  rbuf : info.rbuf.len ≤ fkBufHighwat
  unread : info.rbuf.fkBufPayloadLen ≤ fkArgHighwat + 1
  wbuf : info.wbuf.len ≤ 2 * (maxWbuf + fkArgHighwat + 2)
  slots : info.argVtr.fkVtrLen ≤ fkArgCntHighwat
  args : ∀ arg, some arg ∈ info.argVtr.array → arg.length ≤ fkArgHighwat

theorem FkClient.bounded {maxWbuf : Nat} {info : FkClient} {request : Request}
    (shows : Shows info.toFkConnIn request) (small : request.Small)
    (waits : requestMachine.step request info.rbuf.payload = .wait) (sized : info.rbuf.Sized)
    (roomy : Roomy maxWbuf info.wbuf) : info.Bounded maxWbuf where
  rbuf := sized.len_le
  unread := by
    rw [← FkBuf.length_payload]
    exact length_le_of_wait small.within waits
  wbuf := roomy.len
  slots := by
    have fits : request.args.length ≤ max fkVtrInitLen request.expected :=
      Nat.le_trans request.args_le (Nat.le_max_right _ _)
    rw [shows.vtr, FkVtr.fkVtrLen_filled fits]
    exact Nat.max_le.mpr ⟨by decide, small.expected⟩
  args := by
    intro arg member
    rw [shows.vtr] at member
    rcases List.mem_append.mp member with stored | blank
    · obtain ⟨same, inside, stored⟩ := List.mem_map.mp stored
      cases stored
      exact small.args arg inside
    · cases (List.mem_replicate.mp blank).2

/-! ## Every step -/

/-- A request that is parsed and does no harm. -/
def Meek (args : List Bytes) : Prop := Admissible args ∧ Harmless args

theorem Moment.Asks.meek {moment : Moment} (asks : moment.Asks Meek) : moment.Admitted := by
  cases moment with
  | sweep rand fuel => trivial
  | serve event =>
      cases event with
      | command client args => exact asks.1.admitted asks.2.notEval
      | _ => trivial

theorem asks_meek (server : FkServer) (wake : Wake) : wake.Asks Meek server ↔
    wake.Asks Harmless server := by
  cases wake with
  | readCb client results =>
      exact forall₂_congr fun args output => and_iff_right (admissible_of_output output)
  | _ => exact Iff.rfl

/-- A sweep that ends. -/
def Wake.Ends (server : FkServer) : Wake → Prop
  | .sweep rand fuel => (fkSvrClearTimeoutKeys rand fuel server.svr).isSome = true
  | _ => True

instance (server : FkServer) (wake : Wake) : Decidable (wake.Ends server) :=
  match wake with
  | .sweep rand fuel =>
      inferInstanceAs (Decidable ((fkSvrClearTimeoutKeys rand fuel server.svr).isSome = true))
  | .accept _ => isTrue trivial
  | .arrive _ _ => isTrue trivial
  | .readCb _ _ => isTrue trivial
  | .ready _ => isTrue trivial
  | .writeCb _ _ => isTrue trivial
  | .timerCb _ => isTrue trivial

/-- The server on bytes beside a run on commands that does no harm. -/
structure FkServer.Hale (maxWbuf : Nat) (server : FkServer) : Prop where
  matched : ∃ past noted, Matches Meek server past noted
  system : server.system.Hale maxWbuf
  sized : ∀ client info, server.clients client = some info → info.rbuf.Sized

section Step

variable {fkCmdEval : Handler} {maxWbuf : Nat} {server next : FkServer}

/-- Commands of a client leave a server that is in order. -/
theorem run_hale {moments : List Moment} {sys last : FkSystem} (hale : sys.Hale maxWbuf)
    (asks : ∀ moment ∈ moments, moment.Asks Meek)
    (reached : run (FkSystem.moment fkCmdEval maxWbuf) sys moments = some last) :
    last.Hale maxWbuf :=
  run_invariant (fun _ _ _ hale admitted stepped => hale.moment admitted stepped) hale
    (fun moment member => (asks moment member).meek) reached

/-- They never crash it. -/
theorem ask_succeeds {sys : FkSystem} (hale : sys.Hale maxWbuf) (small : maxWbuf < 2 ^ 29)
    {client : Nat} {commands : List (List Bytes)} (meek : ∀ args ∈ commands, Meek args) :
    ∃ last, run (FkSystem.moment fkCmdEval maxWbuf) sys (ask client commands) = some last := by
  have steps : ∀ (sys : FkSystem) (moment : Moment), sys.Hale maxWbuf →
      (∃ args, moment = .serve (.command client args) ∧ Meek args) →
      ∃ next, sys.moment fkCmdEval maxWbuf moment = some next ∧ next.Hale maxWbuf := by
    rintro sys _ hale ⟨args, rfl, meek⟩
    obtain ⟨next, stepped⟩ :=
      @FkSystem.Hale.command_succeeds fkCmdEval maxWbuf sys client args hale small meek.1 meek.2
    have asks : Moment.Asks Meek (.serve (.command client args)) := meek
    exact ⟨next, stepped, hale.moment asks.meek stepped⟩
  obtain ⟨last, ran, _⟩ := run_succeeds steps hale fun moment member => by
    obtain ⟨args, inside, rfl⟩ := List.mem_map.mp member
    exact ⟨args, rfl, meek args inside⟩
  exact ⟨last, ran⟩

theorem readCb_succeeds (hale : server.Hale maxWbuf) (small : maxWbuf < 2 ^ 29) {client : Nat}
    {results : List RecvRt} (asks : (Wake.readCb client results).Asks Meek server) :
    ∃ next, server.fkConnReadCb fkCmdEval client results = some next := by
  cases connected : server.clients client with
  | none =>
      unfold FkServer.fkConnReadCb
      rw [connected]
      exact ⟨server, rfl⟩
  | some info =>
      obtain ⟨past, noted, matched⟩ := hale.matched
      obtain ⟨taken, arriving, split, leaves⟩ :=
        @fkConnReadCb_leaves fkCmdEval server client info matched.follows connected results
      obtain ⟨fine, _, _⟩ := matched.follows client info connected
      have meek := outputs_good asks fine split
      generalize (requestMachine.run (server.parsed client).state
        ((server.parsed client).unread ++ taken)) = stop at *
      have conn : server.system.conns client = some info.out :=
        congrArg (Option.map FkClient.out) connected
      obtain ⟨last, ran⟩ := @ask_succeeds fkCmdEval maxWbuf server.system hale.system small client
        stop.outputs meek
      rw [ask_connected conn] at ran
      change server.system.ran client
        (execAll (fkConnProcCmd fkCmdEval) ⟨server.svr, info.out⟩ stop.outputs) = some last at ran
      generalize execAll (fkConnProcCmd fkCmdEval) ⟨server.svr, info.out⟩ stop.outputs = exec at *
      generalize server.fkConnReadCb fkCmdEval client results = outcome at leaves ⊢
      cases leaves with
      | crashed crashes =>
          rw [FkSystem.ran_crashes crashes] at ran
          cases ran
      | closed => exact ⟨_, rfl⟩
      | opened => exact ⟨_, rfl⟩

theorem step_succeeds (hale : server.Hale maxWbuf) (small : maxWbuf < 2 ^ 29) {wake : Wake}
    (asks : wake.Asks Meek server) (ends : wake.Ends server) :
    ∃ next, server.step fkCmdEval maxWbuf wake = some next := by
  cases wake with
  | readCb client results => exact readCb_succeeds hale small asks
  | sweep rand fuel =>
      obtain ⟨final, swept⟩ := Option.isSome_iff_exists.mp ends
      exact ⟨{ server with svr := final.svr }, congrArg (Option.map _) swept⟩
  | _ => exact ⟨_, rfl⟩

theorem setClient_sized {client : Nat} {info : Option FkClient}
    (sized : ∀ other old, server.clients other = some old → old.rbuf.Sized)
    (new : ∀ after, info = some after → after.rbuf.Sized) :
    ∀ other after, (server.setClient client info).clients other = some after →
      after.rbuf.Sized := by
  intro other after connected
  change Function.update server.clients client info other = some after at connected
  by_cases same : other = client
  · rw [same, Function.update_self] at connected
    exact new after connected
  · rw [Function.update_of_ne same] at connected
    exact sized other after connected

theorem step_sized {wake : Wake}
    (sized : ∀ client info, server.clients client = some info → info.rbuf.Sized)
    (stepped : server.step fkCmdEval maxWbuf wake = some next) :
    ∀ client info, next.clients client = some info → info.rbuf.Sized := by
  cases wake with
  | accept client =>
      cases stepped
      refine @setClient_sized (server.setSocket client fkSocketOpen) client _ sized ?_
      rintro _ ⟨⟩
      exact ⟨rfl, rfl, 0, Nat.zero_le _, rfl⟩
  | arrive client bytes =>
      cases stepped
      exact sized
  | ready client =>
      cases stepped
      refine setClient_sized sized fun after moved => ?_
      obtain ⟨old, connected, rfl⟩ := Option.map_eq_some_iff.mp moved
      exact sized client old connected
  | timerCb client =>
      cases stepped
      exact setClient_sized sized nofun
  | sweep rand fuel =>
      obtain ⟨final, _, rfl⟩ := Option.map_eq_some_iff.mp stepped
      exact sized
  | writeCb client results =>
      cases stepped
      unfold FkServer.fkConnWriteCb
      split
      · exact sized
      · next info connected =>
          split
          · refine @setClient_sized (server.setSocket client _) client _ sized fun after moved => ?_
            obtain ⟨link, left, rfl⟩ := Option.map_eq_some_iff.mp moved
            obtain ⟨rbuf, _⟩ := fkConnWriteCb_leaves _ _ link left
            change link.rbuf.Sized
            rw [rbuf]
            exact sized client info connected
          · exact sized
  | readCb client results =>
      change server.fkConnReadCb fkCmdEval client results = some next at stepped
      unfold FkServer.fkConnReadCb at stepped
      split at stepped
      · cases stepped
        exact sized
      · next info connected =>
          have read := @passes_sized _ (fkConnProcCmd fkCmdEval) (server.reader client info)
            (sized client info connected) results
          generalize (server.reader client info).passes (fkConnProcCmd fkCmdEval) results =
            after at stepped read
          unfold FkServer.readDone at stepped
          dsimp only at stepped
          split at stepped
          · cases stepped
            refine @setClient_sized (({ server with svr := after.state.svr } : FkServer).setSocket
              client _) client _ sized ?_
            rintro _ ⟨⟩
            change (fkConnSendRsp _).rbuf.Sized
            rw [fkConnSendRsp_rbuf]
            exact read.fkBufShrink
          · cases stepped
          · cases stepped
          · cases stepped
            exact @setClient_sized (({ server with svr := after.state.svr } : FkServer).setSocket
              client _) client _ sized nofun

theorem step_hale (hale : server.Hale maxWbuf) (small : maxWbuf < 2 ^ 29) {wake : Wake}
    (asks : wake.Asks Meek server) (ends : wake.Ends server) :
    ∃ next, server.step fkCmdEval maxWbuf wake = some next ∧ next.Hale maxWbuf := by
  obtain ⟨next, stepped⟩ := @step_succeeds fkCmdEval maxWbuf server hale small wake asks ends
  obtain ⟨past, noted, matched⟩ := hale.matched
  obtain ⟨moves, ⟨sys, notes⟩, ran, related⟩ := step_matched matched asks stepped
  refine ⟨next, stepped, ⟨⟨_, _, related⟩, ?_, step_sized hale.sized stepped⟩⟩
  rw [related.system]
  have before : noted.1.Hale maxWbuf := by
    rw [← matched.system]
    exact hale.system
  exact run_hale before (fun moment member => related.asks moment (List.mem_append_right _ member))
    (run_of_noting ran)

end Step

/-- As long as no client asks for `EVAL` or `ZADD` and every sweep ends, the server runs on,
whatever else arrives and in whatever pieces, and what it keeps for a connection is bounded. -/
theorem fkServer_survives {fkCmdEval : Handler} {maxWbuf dbcnt : Nat} {blogOn : Bool}
    {clock : Nat → Int} {junk : Nat → UInt8} {wakes : List Wake} (positive : 0 < dbcnt)
    (small : maxWbuf < 2 ^ 29) (harmless : Throughout (FkServer.step fkCmdEval maxWbuf)
      (fun server wake => wake.Asks Harmless server ∧ wake.Ends server)
      (fkServerInit dbcnt blogOn clock junk) wakes) :
    ∃ server, run (FkServer.step fkCmdEval maxWbuf) (fkServerInit dbcnt blogOn clock junk) wakes =
      some server ∧ ∀ client info, server.clients client = some info → info.Bounded maxWbuf := by
  have start : (fkServerInit dbcnt blogOn clock junk).Hale maxWbuf :=
    ⟨⟨_, _, fkServerInit_matches Meek dbcnt blogOn clock junk⟩,
      fkSystemInit_hale positive maxWbuf blogOn clock junk, nofun⟩
  obtain ⟨server, reached, hale⟩ := run_succeeds_along (fun server wake hale both =>
    step_hale hale small ((asks_meek server wake).mpr both.1) both.2) start harmless
  refine ⟨server, reached, fun client info connected => ?_⟩
  obtain ⟨past, noted, matched⟩ := hale.matched
  obtain ⟨fine, shows, payload⟩ := matched.follows client info connected
  refine FkClient.bounded shows (run_small ⟨Nat.zero_le _, nofun, trivial⟩) ?_
    (hale.sized client info connected) ?_
  · rw [payload]
    exact requestMachine.step_of_run fine
  · exact hale.system.roomy client info.out (congrArg (Option.map FkClient.out) connected)

/-- One client sends the beginning of a request and then what is none; another one stores a key and
asks for an unknown command; the server timer sweeps in between. -/
def hostileWakes : List Wake :=
  [.accept 0, .accept 1, .arrive 0 (ascii "*9\r\n$3\r\nGE"), .readCb 0 [.holds 99],
    .arrive 1 (enc [ascii "SET", ascii "k", ascii "v"]),
    .readCb 1 [.holds 99], .sweep (fun draws => draws) 3, .arrive 0 (ascii "T\r\n$-1"),
    .readCb 0 [.holds 99, .holds 99], .arrive 1 (enc [ascii "BOOM"]), .readCb 1 [.holds 99]]

theorem fkServer_survives_hostile : ∃ server, run (FkServer.step (fun _ => Act.fault) 1024)
      (fkServerInit 2 false (fun _ => 0) (fun _ => 0)) hostileWakes = some server ∧
    ∀ client info, server.clients client = some info → info.Bounded 1024 :=
  fkServer_survives (by decide) (by decide) (by decide +kernel)

end Freekick
