import Freekick.Server.Notes

/-!
# Callbacks are commands

Every callback of the server on bytes is a run of the server on commands: a read callback is
the commands of the requests that its bytes complete, a write callback sends from the front of
a write buffer.  However the bytes of the clients arrive, what a client has asked for in such a
run is what its bytes say.
-/

namespace Freekick

open Lib.Call Lib.Resume Lib.Steps

/-! ## A read callback -/

/-- The server after a part of the bytes of a client was received. -/
def FkServer.moved (server : FkServer) (client : Nat) (svr : FkSvr)
    (taken arriving : Bytes) : FkServer :=
  ({ server with svr := svr }).setSocket client
    { server.sockets client with
      arriving := arriving
      received := (server.sockets client).received ++ taken }

/-- What a read callback leaves, told by the commands it has run. -/
inductive ReadLeaves (server : FkServer) (client : Nat) (info : FkClient) (taken arriving : Bytes)
    (stop : Stop UInt8 Request (List Bytes)) (exec : Work × List (List Bytes) × LoopEnd) :
    Option FkServer → Prop
  | crashed (crashes : exec.2.2 = .crashes) :
    ReadLeaves server client info taken arriving stop exec none
  | closed (ends : exec.2.2 = .closes ∨ exec.2.2 = .waits) :
    ReadLeaves server client info taken arriving stop exec
      (some ((server.moved client exec.1.svr taken arriving).setClient client none))
  | opened {after : FkClient} {rbuf : FkBuf} (waits : exec.2.2 = .waits)
      (fine : stop.failed = false)
      (shows : Shows after.toFkConnIn stop.state) (payload : after.rbuf.payload = stop.unread)
      (out : after.out = exec.1.out)
      (link : after.link = fkConnSendRsp ⟨rbuf, exec.1.out.wbuf, info.writeEv, info.writeAdded⟩) :
      ReadLeaves server client info taken arriving stop exec
        (some ((server.moved client exec.1.svr taken arriving).setClient client (some after)))

theorem fkConnSendRsp_rbuf (link : FkLink) : (fkConnSendRsp link).rbuf = link.rbuf.fkBufShrink := by
  unfold fkConnSendRsp
  dsimp only
  split <;> rfl

section Read

variable {fkCmdEval : Handler} {maxWbuf : Nat} {server next : FkServer} {client : Nat}
  {info : FkClient}

theorem FkServer.Follows.rests (follows : server.Follows)
    (connected : server.clients client = some info) :
    (server.reader client info).Rests (server.parsed client).state := by
  obtain ⟨fine, shows, payload⟩ := follows client info connected
  refine ⟨shows, ?_, rfl⟩
  change requestMachine.step _ info.rbuf.payload = _
  rw [payload]
  exact requestMachine.step_of_run fine

theorem readDone_leaves {taken : Bytes} {stop : Stop UInt8 Request (List Bytes)}
    {after : Reader Work} (serves :
      Serves (fkConnProcCmd fkCmdEval) (server.reader client info) taken stop after) :
    ReadLeaves server client info taken after.stream stop
      (execAll (fkConnProcCmd fkCmdEval) ⟨server.svr, info.out⟩ stop.outputs)
      (server.readDone client info after) := by
  obtain ⟨conn, state, stream, ending⟩ := after
  obtain ⟨split, ran, stopped, failed, settled⟩ := serves
  change (server.sockets client).arriving = taken ++ stream at split
  have took : (server.sockets client).arriving.take
      ((server.sockets client).arriving.length - stream.length) = taken := by
    rw [split, List.length_append, Nat.add_sub_cancel, List.take_left]
  change state = (execAll (fkConnProcCmd fkCmdEval) ⟨server.svr, info.out⟩ stop.outputs).1 at ran
  unfold execStop at stopped failed settled
  change (_ → _ → ending = _) at failed
  generalize exec : execAll (fkConnProcCmd fkCmdEval) (server.reader client info).state
    stop.outputs = ended at *
  change ReadLeaves _ _ _ _ _ _
    (execAll (fkConnProcCmd fkCmdEval) (server.reader client info).state stop.outputs) _
  change state = (execAll (fkConnProcCmd fkCmdEval) (server.reader client info).state
    stop.outputs).1 at ran
  rw [exec] at ran ⊢
  subst ran
  unfold FkServer.readDone
  dsimp only at stopped failed settled ⊢
  rw [took]
  cases how : ended.2.2 with
  | faults => exact absurd (exec ▸ how) (execAll_ne_faults _ _ _)
  | crashes =>
      rw [stopped (by rw [how]; nofun), how]
      exact .crashed how
  | closes =>
      rw [stopped (by rw [how]; nofun), how]
      exact .closed (.inl how)
  | waits =>
      cases fails : stop.failed with
      | true =>
          rw [failed how fails]
          exact .closed (.inr how)
      | false =>
          obtain ⟨shows, left, rfl | rfl | rfl⟩ := settled how fails
          · refine @ReadLeaves.opened _ _ _ _ _ _ _ _ conn.rbuf how fails
              (Shows.withRbuf shows _) ?_ ?_ rfl
            · change (fkConnSendRsp _).rbuf.payload = _
              rw [fkConnSendRsp_rbuf, FkBuf.payload_fkBufShrink]
              exact left
            · change ({ ended.1.out with wbuf := (fkConnSendRsp _).wbuf } : FkConnOut) = _
              rw [fkConnSendRsp_wbuf]
              rfl
          · exact .closed (.inr how)
          · exact .closed (.inr how)

theorem fkConnReadCb_leaves (follows : server.Follows)
    (connected : server.clients client = some info) (results : List RecvRt) :
    ∃ taken arriving, (server.sockets client).arriving = taken ++ arriving ∧
      ReadLeaves server client info taken arriving
        (requestMachine.run (server.parsed client).state ((server.parsed client).unread ++ taken))
        (execAll (fkConnProcCmd fkCmdEval) ⟨server.svr, info.out⟩
          (requestMachine.run (server.parsed client).state
            ((server.parsed client).unread ++ taken)).outputs)
        (server.fkConnReadCb fkCmdEval client results) := by
  obtain ⟨taken, serves⟩ :=
    @passes_serves _ (fkConnProcCmd fkCmdEval) _ _ (follows.rests connected) results
  obtain ⟨_, _, payload⟩ := follows client info connected
  change Serves _ _ taken (requestMachine.run _ (info.rbuf.payload ++ taken)) _ at serves
  rw [payload] at serves
  have called : server.fkConnReadCb fkCmdEval client results =
      server.readDone client info
        ((server.reader client info).passes (fkConnProcCmd fkCmdEval) results) := by
    rw [FkServer.fkConnReadCb, connected]
  rw [called]
  generalize (server.reader client info).passes (fkConnProcCmd fkCmdEval) results = after at serves
  exact ⟨taken, after.stream, serves.stream, readDone_leaves serves⟩

end Read

/-! ## The refinement -/

/-- A moment in which only good requests are made. -/
def Moment.Asks (good : List Bytes → Prop) : Moment → Prop
  | .serve (.command _ args) => good args
  | _ => True

/-- A read callback finds only good requests in the bytes that have arrived. -/
def Wake.Asks (good : List Bytes → Prop) (server : FkServer) : Wake → Prop
  | .readCb client _ => ∀ args ∈ (requestMachine.run .idle ((server.sockets client).received ++
      (server.sockets client).arriving)).outputs, good args
  | _ => True

instance (good : List Bytes → Prop) [DecidablePred good] (server : FkServer) (wake : Wake) :
    Decidable (wake.Asks good server) :=
  match wake with
  | .readCb client _ =>
      inferInstanceAs (Decidable
        (∀ args ∈ (requestMachine.run .idle ((server.sockets client).received ++
      (server.sockets client).arriving)).outputs, good args))
  | .accept _ => isTrue trivial
  | .arrive _ _ => isTrue trivial
  | .ready _ => isTrue trivial
  | .writeCb _ _ => isTrue trivial
  | .timerCb _ => isTrue trivial
  | .sweep _ _ => isTrue trivial

/-- What the machine emits was admissible. -/
theorem admissible_of_output {payload : Bytes} {args : List Bytes}
    (output : args ∈ (requestMachine.run .idle payload).outputs) : Admissible args := by
  generalize list : (requestMachine.run .idle payload).outputs = outputs at output
  induction outputs generalizing payload with
  | nil => cases output
  | cons first rest ih =>
      obtain ⟨next, unread, emits⟩ := requestMachine.emits_of_run list
      obtain ⟨rfl, admissible, _⟩ := emits_completes emits
      rw [Machine.Emits.run _ emits] at list
      rcases List.mem_cons.mp output with rfl | member
      · exact admissible
      · exact ih (List.cons.inj list).2 member

/-- More bytes complete more requests. -/
theorem outputs_prefix (request : Request) (bytes more : Bytes) :
    (requestMachine.run request bytes).outputs <+:
      (requestMachine.run request (bytes ++ more)).outputs := by
  have joined := requestMachine.run_append request bytes more
  rw [joined.outputs]
  split
  · exact List.prefix_rfl
  · exact List.prefix_append _ _

/-- The server after some moments: the systems are the same, the parsers are where the bytes
have led them, every client has asked for what its bytes say and was sent the same bytes. -/
structure Matches (good : List Bytes → Prop) (server : FkServer) (past : List Moment)
    (noted : FkSystem × Notes) : Prop where
  system : server.system = noted.1
  follows : server.Follows
  asked : ∀ client, (server.parsed client).outputs = commandsOf client past
  sent : ∀ client, (server.sockets client).sent = (noted.2 client).sent
  asks : ∀ moment ∈ past, moment.Asks good

section Step

variable {fkCmdEval : Handler} {maxWbuf : Nat} {good : List Bytes → Prop} {server next : FkServer}
  {client : Nat} {past moves : List Moment} {noted last : FkSystem × Notes}

/-- What a step is to be matched by. -/
def Matched (fkCmdEval : Handler) (maxWbuf : Nat) (good : List Bytes → Prop) (past : List Moment)
    (noted : FkSystem × Notes) (next : FkServer) : Prop :=
  ∃ moves last, run (FkSystem.noted fkCmdEval maxWbuf) noted moves = some last ∧
    Matches good next (past ++ moves) last

theorem FkServer.system_setClient (server : FkServer) (client : Nat) (info : Option FkClient) :
    (server.setClient client info).system = server.system.setConn client
    (info.map FkClient.out) := by
  exact congrArg (FkSystem.mk server.svr)
    (Function.comp_update (Option.map _) server.clients client info)

theorem commandsOf_append (client : Nat) (past moves : List Moment) :
    commandsOf client (past ++ moves) = moves.foldl (Freekick.asked client)
      (commandsOf client past) := List.foldl_append

/-- The server with another connection and another far end of it. -/
def FkServer.changed (server : FkServer) (svr : FkSvr) (client : Nat) (socket : FkSocket)
    (info : Option FkClient) : FkServer :=
  (({ server with svr := svr }).setSocket client socket).setClient client info

theorem FkServer.changed_parsed (server : FkServer) (svr : FkSvr) (client other : Nat)
    (socket : FkSocket) (info : Option FkClient) :
    (server.changed svr client socket info).parsed other =
      if other = client then requestMachine.run .idle socket.received else server.parsed other := by
  change requestMachine.run .idle (Function.update server.sockets client socket other).received = _
  split
  · next same => rw [same, Function.update_self]
  · next apart =>
      rw [Function.update_of_ne apart]
      rfl

theorem FkServer.changed_self (server : FkServer) (client : Nat) (info : Option FkClient) :
    server.changed server.svr client (server.sockets client) info =
      server.setClient client info := by
  unfold FkServer.changed FkServer.setSocket
  rw [Function.update_eq_self]

theorem FkServer.changed_socket (server : FkServer) (client : Nat) (socket : FkSocket) :
    server.changed server.svr client socket (server.clients client) = server.setSocket client
      socket := by
  unfold FkServer.changed FkServer.setClient
  change FkServer.mk _ (Function.update server.clients client (server.clients client)) _ = _
  rw [Function.update_eq_self]
  rfl

namespace Matches

theorem svr_self (before : Matches good server past noted) :
    ({ noted.1 with svr := server.svr } : FkSystem) = noted.1 := by
  rw [← before.system]
  rfl

theorem conn (before : Matches good server past noted) :
    noted.1.conns client = (server.clients client).map FkClient.out := by
  rw [← before.system]
  rfl

theorem asks_append (before : Matches good server past noted)
    (asks : ∀ moment ∈ moves, moment.Asks good) :
    ∀ moment ∈ past ++ moves, moment.Asks good := by
  intro moment member
  rcases List.mem_append.mp member with old | recent
  · exact before.asks moment old
  · exact asks moment recent

/-- Moves of one client, with what they make of its connection. -/
theorem change (before : Matches good server past noted) {svr : FkSvr} {socket : FkSocket}
    {info : Option FkClient} (new : ∀ after, info = some after →
      (requestMachine.run .idle socket.received).failed = false ∧
      Shows after.toFkConnIn (requestMachine.run .idle socket.received).state ∧
      after.rbuf.payload = (requestMachine.run .idle socket.received).unread)
    (own : (requestMachine.run .idle socket.received).outputs = moves.foldl (Freekick.asked client)
      (server.parsed client).outputs)
    (others : ∀ other ≠ client, ∀ commands, moves.foldl (Freekick.asked other) commands = commands)
    (asks : ∀ moment ∈ moves, moment.Asks good)
    (system : ({ noted.1 with svr := svr }).setConn client (info.map FkClient.out) = last.1)
    (sent : socket.sent = (last.2 client).sent)
    (unsent : ∀ other ≠ client, (noted.2 other).sent = (last.2 other).sent) :
    Matches good (server.changed svr client socket info) (past ++ moves) last where
  system := by
    rw [FkServer.changed, FkServer.system_setClient, ← system, ← before.system]
    rfl
  follows := by
    intro other after connected
    rw [FkServer.changed_parsed]
    change Function.update server.clients client info other = some after at connected
    by_cases same : other = client
    · rw [same, Function.update_self] at connected
      rw [if_pos same]
      exact new after connected
    · rw [Function.update_of_ne same] at connected
      rw [if_neg same]
      exact before.follows other after connected
  asked := by
    intro other
    rw [FkServer.changed_parsed, commandsOf_append]
    by_cases same : other = client
    · rw [if_pos same, same, ← before.asked]
      exact own
    · rw [if_neg same, others other same]
      exact before.asked other
  sent := by
    intro other
    change (Function.update server.sockets client socket other).sent = _
    by_cases same : other = client
    · rw [same, Function.update_self]
      exact sent
    · rw [Function.update_of_ne same, before.sent]
      exact unsent other same
  asks := before.asks_append asks

/-- Without a move. -/
theorem stays (before : Matches good server past noted) :
    Matched fkCmdEval maxWbuf good past noted server :=
  ⟨[], noted, rfl, by rwa [List.append_nil]⟩

end Matches

theorem accept_matched (before : Matches good server past noted) (client : Nat) :
    Matched fkCmdEval maxWbuf good past noted
      ((server.setSocket client fkSocketOpen).setClient client (some (.create maxWbuf))) := by
  have fresh : requestMachine.run .idle fkSocketOpen.received = ⟨.idle, [], [], false⟩ :=
    requestMachine.run_wait (requestMachine.idle .idle)
  refine ⟨[.serve (.connect client)],
    (noted.1.setConn client _, Function.update noted.2 client ⟨[], []⟩), rfl, ?_⟩
  refine @Matches.change good server client past _ noted _ before server.svr fkSocketOpen
    (some (.create maxWbuf)) ?_ ?_ ?_ ?_ ?_ ?_ ?_
  · intro after same
    cases same
    rw [fresh]
    exact ⟨rfl, fkConnCreate_shows .real maxWbuf, rfl⟩
  · rw [fresh]
    exact (if_pos rfl).symm
  · exact fun other apart _ => if_neg (Ne.symm apart)
  · exact List.forall_mem_singleton.mpr trivial
  · rw [before.svr_self]
    rfl
  · change _ = (Function.update noted.2 client ⟨[], []⟩ client).sent
    rw [Function.update_self]
    rfl
  · intro other apart
    change _ = (Function.update noted.2 client ⟨[], []⟩ other).sent
    rw [Function.update_of_ne apart]

theorem arrive_matched (before : Matches good server past noted) (client : Nat) (bytes : Bytes) :
    Matched fkCmdEval maxWbuf good past noted (server.setSocket client
      { server.sockets client with arriving := (server.sockets client).arriving ++ bytes }) := by
  refine ⟨[], noted, rfl, ?_⟩
  have same : noted.1.setConn client ((server.clients client).map FkClient.out) = noted.1 := by
    rw [← before.conn]
    exact congrArg (FkSystem.mk noted.1.svr) (Function.update_eq_self client _)
  have kept := @Matches.change good server client past [] noted noted before server.svr
    { server.sockets client with arriving := (server.sockets client).arriving ++ bytes }
    (server.clients client) (before.follows client) rfl (fun _ _ _ => rfl) nofun
      (by rw [before.svr_self, same]) (before.sent client) (fun _ _ => rfl)
  rwa [FkServer.changed_socket] at kept

theorem ready_matched (before : Matches good server past noted) (client : Nat) :
    Matched fkCmdEval maxWbuf good past noted (server.setClient client
      ((server.clients client).map fun info =>
        { info with writeEv := fkEvActivateIoev info.writeEv })) := by
  refine ⟨[], noted, rfl, ?_⟩
  have same : noted.1.setConn client (((server.clients client).map fun info : FkClient =>
      { info with writeEv := fkEvActivateIoev info.writeEv }).map FkClient.out) = noted.1 := by
    rw [Option.map_map]
    change noted.1.setConn client ((server.clients client).map FkClient.out) = _
    rw [← before.conn]
    exact congrArg (FkSystem.mk noted.1.svr) (Function.update_eq_self client _)
  have kept := @Matches.change good server client past [] noted noted before server.svr
    (server.sockets client) ((server.clients client).map fun info =>
      { info with writeEv := fkEvActivateIoev info.writeEv })
    (fun after moved => by
      obtain ⟨old, connected, rfl⟩ := Option.map_eq_some_iff.mp moved
      exact before.follows client old connected)
    rfl (fun _ _ _ => rfl) nofun (by rw [before.svr_self, same]) (before.sent client)
      (fun _ _ => rfl)
  rwa [FkServer.changed_self] at kept

theorem timerCb_matched (before : Matches good server past noted) (client : Nat) :
    Matched fkCmdEval maxWbuf good past noted (server.setClient client none) := by
  refine ⟨[.serve (.close client)], (noted.1.setConn client none, noted.2), rfl, ?_⟩
  rw [← FkServer.changed_self]
  exact @Matches.change good server client past _ noted _ before server.svr _ none nofun rfl
    (fun _ _ _ => rfl) (List.forall_mem_singleton.mpr trivial) (by rw [before.svr_self]; rfl)
      (before.sent client) (fun _ _ => rfl)

theorem sweep_matched (before : Matches good server past noted) {rand : Nat → Nat} {fuel : Nat}
    {final : FkSweep} (swept : fkSvrClearTimeoutKeys rand fuel server.svr = some final) :
    Matched fkCmdEval maxWbuf good past noted { server with svr := final.svr } := by
  have svr : noted.1.svr = server.svr := by
    rw [← before.system]
    rfl
  have asks := @Matches.asks_append good server past [Moment.sweep rand fuel] noted before
    (List.forall_mem_singleton.mpr trivial)
  have moved : run (FkSystem.noted fkCmdEval maxWbuf) noted [.sweep rand fuel] =
      some ({ noted.1 with svr := final.svr }, noted.2) := by
    rw [run, FkSystem.noted, noting, FkSystem.moment, svr, swept]
    rfl
  refine ⟨_, _, moved, ⟨?_, before.follows, fun client => ?_, before.sent, asks⟩⟩
  · rw [← before.system]
    rfl
  · rw [commandsOf_append]
    exact before.asked client

/-- The bytes of a read callback carry on where the bytes before them have led. -/
theorem parsed_append (fine : (server.parsed client).failed = false) (taken : Bytes) :
    (requestMachine.run .idle ((server.sockets client).received ++ taken)).Same
      ((requestMachine.run (server.parsed client).state
        ((server.parsed client).unread ++ taken)).after (server.parsed client).outputs) := by
  have joined := requestMachine.run_append .idle (server.sockets client).received taken
  change Stop.Same _ (if (server.parsed client).failed = true then _ else _) at joined
  rw [fine, if_neg Bool.false_ne_true] at joined
  exact joined

theorem ask_asks {commands : List (List Bytes)} (each : ∀ args ∈ commands, good args) :
    ∀ moment ∈ ask client commands, moment.Asks good := by
  intro moment member
  obtain ⟨args, inside, rfl⟩ := List.mem_map.mp member
  exact each args inside

theorem ask_silent (client : Nat) (commands : List (List Bytes)) : ∀ moment ∈ ask client commands,
    moment.Silent := by
  intro moment member
  obtain ⟨args, _, rfl⟩ := List.mem_map.mp member
  trivial

/-- Commands of a client, and its end when it comes with them. -/
theorem asked_and_closed (client : Nat) (commands : List (List Bytes)) :
    (∀ moment ∈ ask client commands ++ [Moment.serve (.close client)], moment.Silent) ∧
    (∀ before, (ask client commands ++ [Moment.serve (.close client)]).foldl (Freekick.asked client)
      before = before ++ commands) ∧
    ∀ other ≠ client, ∀ before, (ask client commands ++ [Moment.serve (.close client)]).foldl
      (Freekick.asked other) before = before := by
  refine ⟨fun moment member => ?_, fun before => ?_, fun other apart before => ?_⟩
  · rcases List.mem_append.mp member with command | close
    · exact ask_silent client commands moment command
    · rw [List.mem_singleton.mp close]
      trivial
  · rw [List.foldl_append, asked_ask]
    rfl
  · rw [List.foldl_append, asked_other (Ne.symm apart)]
    rfl

/-- The run of the commands of one read callback, and what it leaves to show. -/
theorem silent_matched {svr : FkSvr} {socket : FkSocket} {info : Option FkClient}
    (before : Matches good server past noted) (silent : ∀ moment ∈ moves, moment.Silent)
    (ran : run (FkSystem.moment fkCmdEval maxWbuf) noted.1 moves =
      some (({ noted.1 with svr := svr }).setConn client (info.map FkClient.out)))
    (kept : socket.sent = (server.sockets client).sent)
    (new : ∀ after, info = some after → (requestMachine.run .idle socket.received).failed = false ∧
      Shows after.toFkConnIn (requestMachine.run .idle socket.received).state ∧
      after.rbuf.payload = (requestMachine.run .idle socket.received).unread)
    (own : (requestMachine.run .idle socket.received).outputs = moves.foldl (Freekick.asked client)
      (server.parsed client).outputs)
    (others : ∀ other ≠ client, ∀ commands, moves.foldl (Freekick.asked other) commands = commands)
    (asks : ∀ moment ∈ moves, moment.Asks good) :
    Matched fkCmdEval maxWbuf good past noted (server.changed svr client socket info) := by
  obtain ⟨notes, reached⟩ := @run_noting _ _ _ _ _ _ _ Notes.note ran noted.2
  have unsent := noted_silent silent reached
  refine ⟨moves, _, reached, before.change new own others asks rfl ?_ fun other _ =>
    (unsent other).symm⟩
  rw [kept, before.sent]
  exact (unsent client).symm

/-- The requests of one read callback were asked for. -/
theorem outputs_good {results : List RecvRt} {taken arriving : Bytes}
    (asks : (Wake.readCb client results).Asks good server)
    (fine : (server.parsed client).failed = false)
    (split : (server.sockets client).arriving = taken ++ arriving) :
    ∀ args ∈ (requestMachine.run (server.parsed client).state
      ((server.parsed client).unread ++ taken)).outputs, good args := by
  intro args member
  have whole := outputs_prefix .idle ((server.sockets client).received ++ taken) arriving
  rw [List.append_assoc, ← split, (parsed_append fine taken).outputs] at whole
  exact asks args (whole.subset (List.mem_append_right _ member))

theorem readCb_matched (before : Matches good server past noted) {client : Nat}
    {results : List RecvRt} (asks : (Wake.readCb client results).Asks good server)
    (called : server.fkConnReadCb fkCmdEval client results = some next) :
    Matched fkCmdEval maxWbuf good past noted next := by
  cases connected : server.clients client with
  | none =>
      rw [FkServer.fkConnReadCb, connected] at called
      cases called
      exact before.stays
  | some info =>
      obtain ⟨taken, arriving, split, leaves⟩ :=
        @fkConnReadCb_leaves fkCmdEval server client info before.follows connected results
      obtain ⟨fine, _, _⟩ := before.follows client info connected
      have joined := parsed_append fine taken
      have svr : noted.1.svr = server.svr := congrArg FkSystem.svr before.system.symm
      have conn : noted.1.conns client = some info.out := by
        rw [before.conn, connected]
        rfl
      have commands := @ask_connected fkCmdEval maxWbuf noted.1 client
        (requestMachine.run (server.parsed client).state
          ((server.parsed client).unread ++ taken)).outputs _ conn
      rw [svr] at commands
      have closed := @ask_closed fkCmdEval maxWbuf noted.1 client
        (requestMachine.run (server.parsed client).state
          ((server.parsed client).unread ++ taken)).outputs _ conn
      rw [svr] at closed
      have goods := outputs_good asks fine split
      generalize requestMachine.run (server.parsed client).state
        ((server.parsed client).unread ++ taken) = stop at *
      have requests : (requestMachine.run .idle
          ((server.sockets client).received ++ taken)).outputs =
          (server.parsed client).outputs ++ stop.outputs := joined.outputs
      generalize execAll (fkConnProcCmd fkCmdEval) ⟨server.svr, info.out⟩ stop.outputs = exec at *
      rw [called] at leaves
      cases leaves with
      | closed ends =>
          obtain ⟨silent, own, others⟩ := asked_and_closed client stop.outputs
          refine @silent_matched fkCmdEval maxWbuf good server client past _ noted exec.1.svr
            { server.sockets client with
              arriving := arriving
              received := (server.sockets client).received ++ taken } none
            before silent (closed ends) rfl nofun ?_ others ?_
          · rw [own]
            exact requests
          · intro moment member
            rcases List.mem_append.mp member with command | close
            · exact ask_asks goods moment command
            · rw [List.mem_singleton.mp close]
              trivial
      | @opened after rbuf waits settled shows payload out link =>
          refine @silent_matched fkCmdEval maxWbuf good server client past _ noted exec.1.svr
            { server.sockets client with
              arriving := arriving
              received := (server.sockets client).received ++ taken } (some after)
            before (ask_silent client stop.outputs) ?_ rfl ?_ ?_
              (fun other apart before => asked_other (Ne.symm apart) _ _)
            (ask_asks goods)
          · rw [commands, FkSystem.ran, waits, Option.map_some, ← out]
          · rintro _ ⟨⟩
            obtain ⟨states, unread⟩ := joined.symm.settled settled
            change _ = (requestMachine.run .idle
              ((server.sockets client).received ++ taken)).state at states
            change _ = (requestMachine.run .idle
              ((server.sockets client).received ++ taken)).unread at unread
            refine ⟨joined.failed.trans settled, ?_, ?_⟩
            · rw [← states]
              exact shows
            · rw [← unread]
              exact payload
          · rw [asked_ask]
            exact requests

theorem writeCb_matched (before : Matches good server past noted) (client : Nat)
    (results : List SendRt) :
    Matched fkCmdEval maxWbuf good past noted (server.fkConnWriteCb client results) := by
  rw [FkServer.fkConnWriteCb]
  cases connected : server.clients client with
  | none => exact before.stays
  | some info =>
      dsimp only
      split
      · have conn : noted.1.conns client = some info.out := by
          rw [before.conn, connected]
          rfl
        have took := fkConnWriteCb_sent results
          { info.link with writeEv := { info.writeEv with stat := .pending } }
        have wrote := fkConnWriteCb_leaves results
          { info.link with writeEv := { info.writeEv with stat := .pending } }
        generalize fkConnWriteCb results
          { info.link with writeEv := { info.writeEv with stat := .pending } } = out at took wrote
        obtain ⟨sent, left⟩ := out
        change sent = info.wbuf.payload.take sent.length at took
        -- What was sent went out, also when the connection is closed after it.
        have sends : FkSystem.noted fkCmdEval maxWbuf noted (.serve (.sent client sent.length)) =
            some (noted.1.setConn client
              (some { info.out with wbuf := (info.wbuf.fkBufLowInc sent.length).fkBufShrink }),
              noted.2.send client sent) := by
          change some (noted.1.setConn client ((noted.1.conns client).map _),
            noted.2.note noted.1 (.serve (.sent client sent.length))) = _
          rw [Notes.note_sent conn, conn]
          change some (_, noted.2.send client (info.wbuf.payload.take sent.length)) = _
          rw [← took]
          rfl
        have own : ((server.sockets client).sent ++ sent) =
            (noted.2.send client sent client).sent := by
          change _ = (Function.update noted.2 client _ client).sent
          rw [Function.update_self, before.sent]
        have others : ∀ other ≠ client,
            (noted.2 other).sent = (noted.2.send client sent other).sent := by
          intro other apart
          change _ = (Function.update noted.2 client _ other).sent
          rw [Function.update_of_ne apart]
        cases left with
        | none =>
            refine ⟨[.serve (.sent client sent.length), .serve (.close client)],
              (noted.1.setConn client none, noted.2.send client sent), ?_, ?_⟩
            · rw [run, sends]
              change some ((noted.1.setConn client _).setConn client none, _) = _
              unfold FkSystem.setConn
              rw [Function.update_idem]
              rfl
            · exact @Matches.change good server client past _ noted _ before server.svr
                { server.sockets client with sent := (server.sockets client).sent ++ sent } none
                (fun _ same => absurd same (Option.some_ne_none _).symm) rfl (fun _ _ _ => rfl)
                (by simp [Moment.Asks]) (by rw [before.svr_self]; rfl) own others
        | some after =>
            obtain ⟨rbuf, wbuf⟩ := wrote after rfl
            refine ⟨[.serve (.sent client sent.length)], _, by rw [run, sends]; rfl, ?_⟩
            refine @Matches.change good server client past _ noted _ before server.svr
                { server.sockets client with sent := (server.sockets client).sent ++ sent }
                (some (info.withLink after)) ?_ rfl (fun _ _ _ => rfl)
                  (List.forall_mem_singleton.mpr trivial) ?_ own others
            · rintro _ ⟨⟩
              have same : (info.withLink after).toFkConnIn = info.toFkConnIn := by
                change ({ info.toFkConnIn with rbuf := after.rbuf } : FkConnIn) = _
                rw [rbuf]
                rfl
              rw [same]
              exact before.follows client info connected
            · rw [before.svr_self]
              change noted.1.setConn client (some { info.out with wbuf := after.wbuf }) = _
              rw [wbuf]
              rfl
      · exact before.stays

theorem step_matched (before : Matches good server past noted) {wake : Wake}
    (asks : wake.Asks good server) (stepped : server.step fkCmdEval maxWbuf wake = some next) :
    Matched fkCmdEval maxWbuf good past noted next := by
  cases wake with
  | readCb client results => exact readCb_matched before asks stepped
  | sweep rand fuel =>
      obtain ⟨final, swept, rfl⟩ := Option.map_eq_some_iff.mp stepped
      exact sweep_matched before swept
  | accept client =>
      cases stepped
      exact accept_matched before client
  | arrive client bytes =>
      cases stepped
      exact arrive_matched before client bytes
  | ready client =>
      cases stepped
      exact ready_matched before client
  | writeCb client results =>
      cases stepped
      exact writeCb_matched before client results
  | timerCb client =>
      cases stepped
      exact timerCb_matched before client

theorem fkServerInit_matches (good : List Bytes → Prop) (dbcnt : Nat) (blogOn : Bool)
    (clock : Nat → Int) (junk : Nat → UInt8) :
    Matches good (fkServerInit dbcnt blogOn clock junk) []
      (fkSystemInit dbcnt blogOn clock junk, notesInit) where
  system := rfl
  follows := nofun
  asked := fun _ => congrArg Stop.outputs (requestMachine.run_wait (requestMachine.idle .idle))
  sent := fun _ => rfl
  asks := nofun

end Step

/-! ## Runs -/

section Runs

variable {fkCmdEval : Handler} {maxWbuf : Nat} {good : List Bytes → Prop} {start server : FkServer}
  {noted : FkSystem × Notes} {past : List Moment} {wakes : List Wake}

theorem run_matches (before : Matches good start past noted)
    (asks : Throughout (FkServer.step fkCmdEval maxWbuf) (fun server wake => wake.Asks good server)
      start wakes)
    (reached : run (FkServer.step fkCmdEval maxWbuf) start wakes = some server) :
    ∃ moments last, run (FkSystem.noted fkCmdEval maxWbuf) noted moments = some last ∧
      Matches good server (past ++ moments) last :=
  run_matched (fun _ _ _ _ _ before here stepped => step_matched before here stepped) before
    asks reached

end Runs

/-! ## Where a run breaks off -/

/-- A sweep that returns is given the rounds that it needs. -/
def Wake.Fuelled (server : FkServer) : Wake → Prop
  | .sweep rand fuel => ∀ more, (fkSvrClearTimeoutKeys rand more server.svr).isSome = true →
      (fkSvrClearTimeoutKeys rand fuel server.svr).isSome = true
  | _ => True

/-- What ends a run: the bytes of a client ask for some commands and then for one that crashes
after them, or a sweep never returns. -/
inductive FkServer.Breaks (fkCmdEval : Handler) (maxWbuf : Nat) (server : FkServer) : Wake → Prop
  | command {client : Nat} {results : List RecvRt} {commands : List (List Bytes)}
      {args : List Bytes} {last : FkSystem}
      (said : (server.parsed client).outputs ++ commands ++ [args] <+:
        (requestMachine.run .idle
          ((server.sockets client).received ++ (server.sockets client).arriving)).outputs)
      (ran : run (FkSystem.moment fkCmdEval maxWbuf) server.system
        (ask client commands) = some last)
      (crashes : last.moment fkCmdEval maxWbuf (.serve (.command client args)) = none) :
      Breaks fkCmdEval maxWbuf server (.readCb client results)
  | sweep {rand : Nat → Nat} {fuel : Nat}
    (endless : ∀ more, fkSvrClearTimeoutKeys rand more server.svr = none) :
      Breaks fkCmdEval maxWbuf server (.sweep rand fuel)

section Breaks

variable {fkCmdEval : Handler} {maxWbuf : Nat} {server : FkServer} {client : Nat} {wake : Wake}

/-- Commands that end in a crash have one that crashes. -/
theorem ask_breaks {sys : FkSystem} {commands : List (List Bytes)}
    (broken : run (FkSystem.moment fkCmdEval maxWbuf) sys (ask client commands) = none) :
    ∃ front args rest last, commands = front ++ args :: rest ∧
      run (FkSystem.moment fkCmdEval maxWbuf) sys (ask client front) = some last ∧
      last.moment fkCmdEval maxWbuf (.serve (.command client args)) = none := by
  obtain ⟨before, moment, after, last, split, ran, stops⟩ := run_breaks broken
  obtain ⟨front, rest, rfl, rfl, others⟩ := List.map_eq_append_iff.mp split
  obtain ⟨args, rest, rfl, rfl, rfl⟩ := List.map_eq_cons_iff.mp others
  exact ⟨front, args, rest, last, rfl, ran, stops⟩

theorem readCb_breaks (follows : server.Follows) {results : List RecvRt}
    (stops : server.fkConnReadCb fkCmdEval client results = none) :
    server.Breaks fkCmdEval maxWbuf (.readCb client results) := by
  cases connected : server.clients client with
  | none =>
      rw [FkServer.fkConnReadCb, connected] at stops
      cases stops
  | some info =>
      obtain ⟨taken, arriving, split, leaves⟩ :=
        @fkConnReadCb_leaves fkCmdEval server client info follows connected results
      obtain ⟨fine, _, _⟩ := follows client info connected
      have joined := (parsed_append fine taken).outputs
      have more := outputs_prefix .idle ((server.sockets client).received ++ taken) arriving
      rw [List.append_assoc, ← split, joined] at more
      rw [stops] at leaves
      cases leaves with
      | crashed crashes =>
          have conn : server.system.conns client = some info.out :=
            congrArg (Option.map FkClient.out) connected
          have broken := @ask_connected fkCmdEval maxWbuf server.system client
            (requestMachine.run (server.parsed client).state
              ((server.parsed client).unread ++ taken)).outputs _ conn
          change _ = server.system.ran client (execAll _ ⟨server.svr, info.out⟩ _) at broken
          rw [FkSystem.ran_crashes crashes] at broken
          obtain ⟨front, args, rest, last, outputs, ran, crash⟩ := ask_breaks broken
          refine .command (List.IsPrefix.trans ?_ more) ran crash
          change _ <+: (server.parsed client).outputs ++ _
          rw [outputs, List.append_assoc, List.prefix_append_right_inj]
          exact ⟨rest, by rw [List.append_assoc, List.singleton_append]⟩

/-- Nothing else ends a run. -/
theorem step_breaks (follows : server.Follows) (fuelled : wake.Fuelled server)
    (stops : server.step fkCmdEval maxWbuf wake = none) :
    server.Breaks fkCmdEval maxWbuf wake := by
  cases wake with
  | readCb client results => exact readCb_breaks follows stops
  | sweep rand fuel =>
      have stopped : fkSvrClearTimeoutKeys rand fuel server.svr = none :=
        Option.map_eq_none_iff.mp stops
      refine .sweep fun more => ?_
      cases returns : fkSvrClearTimeoutKeys rand more server.svr with
      | none => rfl
      | some final =>
          have also := fuelled more (by rw [returns]; rfl)
          rw [stopped] at also
          cases also
  | _ => cases stops

end Breaks

/-- Whatever arrives is admissible where it is parsed. -/
theorem asks_admissible (server : FkServer) (wake : Wake) : wake.Asks Admissible server := by
  cases wake with
  | readCb client results => exact fun args output => admissible_of_output output
  | _ => trivial

/-- The server on bytes stands where these moments lead the server on commands, and every client
has asked for what its bytes say. -/
structure RanAs (fkCmdEval : Handler) (maxWbuf : Nat) (start : FkSystem) (moments : List Moment)
    (server : FkServer) : Prop where
  system : run (FkSystem.moment fkCmdEval maxWbuf) start moments = some server.system
  admissible : ∀ moment ∈ moments, moment.Asks Admissible
  asked : ∀ client, commandsOf client moments =
    (requestMachine.run .idle (server.sockets client).received).outputs

/-- Whatever the clients send and the sockets return: the server on bytes does what the server
on commands does in some run, in which every client asks for the requests that its bytes say.
Where it breaks off, a command that the bytes of a client ask for next crashes after such a run,
or a sweep never returns. -/
theorem fkServer_refines (fkCmdEval : Handler) (maxWbuf dbcnt : Nat) (blogOn : Bool)
    (clock : Nat → Int) (junk : Nat → UInt8) (wakes : List Wake) :
    (∀ server, run (FkServer.step fkCmdEval maxWbuf) (fkServerInit dbcnt blogOn clock junk) wakes =
      some server → ∃ moments, RanAs fkCmdEval maxWbuf (fkSystemInit dbcnt blogOn clock junk)
        moments server) ∧
    (Throughout (FkServer.step fkCmdEval maxWbuf) (fun server wake => wake.Fuelled server)
        (fkServerInit dbcnt blogOn clock junk) wakes →
      run (FkServer.step fkCmdEval maxWbuf) (fkServerInit dbcnt blogOn clock junk) wakes = none →
      ∃ before wake after server moments, wakes = before ++ wake :: after ∧
        run (FkServer.step fkCmdEval maxWbuf) (fkServerInit dbcnt blogOn clock junk) before =
        some server ∧ RanAs fkCmdEval maxWbuf (fkSystemInit dbcnt blogOn clock junk)
          moments server ∧
        server.Breaks fkCmdEval maxWbuf wake) := by
  have matched : ∀ wakes server,
      run (FkServer.step fkCmdEval maxWbuf) (fkServerInit dbcnt blogOn clock junk) wakes =
        some server → server.Follows ∧ ∃ moments,
        RanAs fkCmdEval maxWbuf (fkSystemInit dbcnt blogOn clock junk) moments server := by
    intro wakes server reached
    obtain ⟨moments, ⟨sys, notes⟩, ran, after⟩ := run_matches
      (fkServerInit_matches Admissible dbcnt blogOn clock junk)
        (throughout_of_forall asks_admissible) reached
    refine ⟨after.follows, moments, ?_, after.asks, fun client => (after.asked client).symm⟩
    rw [after.system]
    exact run_of_noting ran
  constructor
  · exact fun server reached => (matched wakes server reached).2
  · intro fuelled broken
    obtain ⟨before, wake, after, server, rfl, reached, stops⟩ := run_breaks broken
    obtain ⟨follows, moments, ran⟩ := matched before server reached
    have here : wake.Fuelled server := holds_of_throughout fuelled reached
    exact ⟨before, wake, after, server, moments, rfl, reached, ran, step_breaks follows here stops⟩

/-- `ZADD` of a key that is not there: the second request of the client crashes the server. -/
def crashingWakes : List Wake :=
  [.accept 0, .arrive 0 (enc [ascii "SET", ascii "k", ascii "v"] ++
      enc [ascii "ZADD", ascii "z", ascii "1", ascii "m"]),
    .readCb 0 [.holds 99, .holds 99, .holds 99]]

theorem fkServer_refines_crashing :
    ∃ before wake after server moments, crashingWakes = before ++ wake :: after ∧
      run (FkServer.step (fun _ => Act.fault) 1024)
        (fkServerInit 1 false (fun _ => 0) (fun _ => 0)) before = some server ∧
      RanAs (fun _ => Act.fault) 1024 (fkSystemInit 1 false (fun _ => 0) (fun _ => 0))
        moments server ∧
      server.Breaks (fun _ => Act.fault) 1024 wake := by
  have fuelled : Throughout (FkServer.step (fun _ => Act.fault) 1024)
      (fun server wake => wake.Fuelled server)
      (fkServerInit 1 false (fun _ => 0) (fun _ => 0)) crashingWakes :=
    ⟨trivial, fun _ _ => ⟨trivial, fun _ _ => ⟨trivial, fun _ _ => trivial⟩⟩⟩
  refine (fkServer_refines (fun _ => Act.fault) 1024 1 false (fun _ => 0) (fun _ => 0)
    crashingWakes).2 fuelled ?_
  rw [← Option.not_isSome_iff_eq_none]
  decide +kernel

end Freekick
