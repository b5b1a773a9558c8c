import Freekick.Net.Callback
import Freekick.Store.Lasting
import Freekick.Store.Link

/-!
# The server between its sockets

The callbacks of the clients and of the server timer, one after the other, on the bytes
themselves.  A client sends any bytes at any time, `recv` and `send` return what they like,
and the event loop runs the callbacks in any order.
-/

namespace Freekick

/-- A connection with its write event. -/
structure FkClient extends FkConn where
  writeEv : FkIoev
  writeAdded : Bool

namespace FkClient

def create (maxWbuf : Nat) : FkClient where
  toFkConn := fkConnCreate .real maxWbuf
  writeEv := fkIoevCreate
  writeAdded := false

def out (client : FkClient) : FkConnOut := client.toFkConnOut

/-- The part that replies go through. -/
def link (client : FkClient) : FkLink :=
  ⟨client.rbuf, client.wbuf, client.writeEv, client.writeAdded⟩

def withLink (client : FkClient) (link : FkLink) : FkClient :=
  { client with
    rbuf := link.rbuf
    wbuf := link.wbuf
    writeEv := link.writeEv
    writeAdded := link.writeAdded }

end FkClient

/-- The far end of a connection: the bytes that the client sent and `recv` did not take yet,
those it took, and those that `send` took. -/
structure FkSocket where
  arriving : Bytes
  received : Bytes
  sent : Bytes

def fkSocketOpen : FkSocket := ⟨[], [], []⟩

structure FkServer where
  svr : FkSvr
  clients : Nat → Option FkClient
  sockets : Nat → FkSocket

/-- Empty databases and no client. -/
def fkServerInit (dbcnt : Nat) (blogOn : Bool) (clock : Nat → Int)
    (junk : Nat → UInt8) : FkServer :=
  ⟨fkSvrInit dbcnt blogOn clock junk, fun _ => none, fun _ => fkSocketOpen⟩

/-- A new connection; bytes on their way; a read callback; a report that a socket takes bytes;
a write callback; a timer that finds the connection idle for too long; and the sweep of the
server timer. -/
inductive Wake where
  | accept (client : Nat)
  | arrive (client : Nat) (bytes : Bytes)
  | readCb (client : Nat) (results : List RecvRt)
  | ready (client : Nat)
  | writeCb (client : Nat) (results : List SendRt)
  | timerCb (client : Nat)
  | sweep (rand : Nat → Nat) (fuel : Nat)

namespace FkServer

def setClient (server : FkServer) (client : Nat) (info : Option FkClient) : FkServer :=
  { server with clients := Function.update server.clients client info }

def setSocket (server : FkServer) (client : Nat) (socket : FkSocket) : FkServer :=
  { server with sockets := Function.update server.sockets client socket }

/-- What the loops of `fk_conn_read_cb` start with. -/
def reader (server : FkServer) (client : Nat) (info : FkClient) : Reader Work :=
  ⟨info.toFkConnIn, ⟨server.svr, info.out⟩, (server.sockets client).arriving, .left .waits⟩

/-- The end of `fk_conn_read_cb`, and what its loops have taken off the socket; `none` is a
crash in a command. -/
def readDone (server : FkServer) (client : Nat) (info : FkClient) (after : Reader Work) :
    Option FkServer :=
  let socket := server.sockets client
  let taken := socket.arriving.take (socket.arriving.length - after.stream.length)
  let server := ({ server with svr := after.state.svr }).setSocket client
    { socket with arriving := after.stream, received := socket.received ++ taken }
  match after.ending with
  | .left .waits =>
      let served : FkClient := ⟨⟨after.conn, after.state.out⟩, info.writeEv, info.writeAdded⟩
      some (server.setClient client (some (served.withLink (fkConnSendRsp served.link))))
  | .left .crashes => none
  | .left .faults => none
  | _ => some (server.setClient client none)

def fkConnReadCb (fkCmdEval : Handler) (server : FkServer) (client : Nat) (results : List RecvRt) :
    Option FkServer :=
  match server.clients client with
  | none => some server
  | some info =>
      server.readDone client info
        ((server.reader client info).passes (fkConnProcCmd fkCmdEval) results)

/-- `fk_conn_write_cb`, when the event loop calls it. -/
def fkConnWriteCb (server : FkServer) (client : Nat) (results : List SendRt) : FkServer :=
  match server.clients client with
  | none => server
  | some info =>
      if info.writeEv.stat = .activated then
        let socket := server.sockets client
        let out := Freekick.fkConnWriteCb results
          { info.link with writeEv := { info.writeEv with stat := .pending } }
        (server.setSocket client { socket with sent := socket.sent ++ out.1 }).setClient client
          (out.2.map info.withLink)
      else server

/-- `none` is a crash, or a sweep that takes longer. -/
def step (fkCmdEval : Handler) (maxWbuf : Nat) (server : FkServer) : Wake → Option FkServer
  | .accept client =>
      some ((server.setSocket client fkSocketOpen).setClient client (some (.create maxWbuf)))
  | .arrive client bytes =>
      let socket := server.sockets client
      some (server.setSocket client { socket with arriving := socket.arriving ++ bytes })
  | .readCb client results => server.fkConnReadCb fkCmdEval client results
  | .ready client =>
      some (server.setClient client ((server.clients client).map fun info =>
        { info with writeEv := fkEvActivateIoev info.writeEv }))
  | .writeCb client results => some (server.fkConnWriteCb client results)
  | .timerCb client => some (server.setClient client none)
  | .sweep rand fuel =>
      (fkSvrClearTimeoutKeys rand fuel server.svr).map fun final => { server with svr := final.svr }

/-- The server without its sockets and parsers. -/
def system (server : FkServer) : FkSystem :=
  ⟨server.svr, fun client => (server.clients client).map FkClient.out⟩

/-- What the bytes that were received from a client amount to. -/
def parsed (server : FkServer) (client : Nat) : Lib.Resume.Stop UInt8 Request (List Bytes) :=
  requestMachine.run .idle (server.sockets client).received

/-- The parser of every open connection stands where its bytes have led it. -/
def Follows (server : FkServer) : Prop :=
  ∀ client info, server.clients client = some info → (server.parsed client).failed = false ∧
    Shows info.toFkConnIn (server.parsed client).state ∧
      info.rbuf.payload = (server.parsed client).unread

end FkServer

end Freekick
