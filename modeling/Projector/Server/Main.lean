import Mathlib.Logic.Function.Basic
import Projector.Base.Run
import Projector.Server.Client
import Projector.Server.Receive
import Projector.Server.Threads

/-!
# The main loop

What `main` does for one descriptor that `select` reported (`Server.serve`): accept a connection, feed a
chunk to its client, or close it. `MainLoop` is the loop itself, with the snapshot `tmp_fds` and the index
`fd` that walk over the descriptors. `Server.step` is the same server as a system whose atomic steps are
an accept, a read, an end of file and the iterations of the two threads, in any order.

A run ends where `new` throws or a null pointer is used: the step is then `none`.
-/

namespace Projector

/-- What `accept` returned: the descriptor, the last number of the peer's address (`getAddress`), and the
memory that `new Client` found. -/
structure Accepted where
  fd : Int
  lastip : Int32
  raw : Client

/-- What `read` returned: some bytes (none at the end of file), or an error. -/
inductive ReadResult where
  | data (bytes : List UInt8) (heap : Heap)
  | error

/-- What others see of a call of `receive` on this descriptor. -/
def outputs (fd : Int) (log : List Event) : List Output :=
  log.filterMap fun e => match e with
    | .draw jpeg => some (.draw fd jpeg)
    | .done type data => if type = changeFocusStatus then some (.request (intOfBytes data)) else none
    | _ => none

namespace Server

/-- The branch of the listening socket. -/
def acceptClient (s : Server) (a : Accepted) : Server :=
  { s with
    toGlobals := s.join a.fd
    readFds := Function.update s.readFds a.fd true
    client := Function.update s.client a.fd (some (Client.new s.screen a.raw a.fd a.lastip)) }

/-- `shutdown`, `close`, `FD_CLR`, `delete client[fd]`, `client[fd] = NULL`. -/
def dropClient (s : Server) (fd : Int) : Server :=
  { s with
    toGlobals := match s.client fd with
      | some c => s.leave c.fd
      | none => s.toGlobals
    readFds := Function.update s.readFds fd false
    client := Function.update s.client fd none }

/-- The server after `receive` on `client[fd]`. -/
def received (s : Server) (fd : Int) (r : Recv) : Server :=
  { s with
    toGlobals := r.globals
    client := Function.update s.client fd (some r.client) }

/-- `bzero(chunk, data_len)` behind a read of these bytes. -/
def wipe (s : Server) (bytes : List UInt8) : Server :=
  { s with chunk := fun i => if i < bytes.length then 0 else s.chunk i }

/-- The branch of a connection on which `read` returned some bytes. -/
def readData (tj : TurboJpeg) (s : Server) (fd : Int) (bytes : List UInt8) (heap : Heap) :
    Option (Server × List Output) :=
  match s.client fd with
  | none => none
  | some c =>
    match c.receive tj heap s.toGlobals (s.chunk.overlay bytes) bytes.length with
    | .ok r => some ((s.received fd r).wipe bytes, outputs fd r.log ++ [.received fd 0])
    | .error ⟨.invalidHeader, r⟩ =>
      some (((s.received fd r).dropClient fd).wipe bytes,
        outputs fd r.log ++ [.received fd (-1), .closed fd])
    | .error ⟨.badAlloc, _⟩ => none

/-- The body of the `for` loop for a descriptor that is set in `tmp_fds`. -/
def serve (tj : TurboJpeg) (s : Server) (fd : Int) (a : Accepted) (r : ReadResult) :
    Option (Server × List Output) :=
  if fd = s.serverSocket then some (s.acceptClient a, [.accepted a.fd])
  else
    match r with
    | .data bytes heap =>
      if 0 < bytes.length then s.readData tj fd bytes heap
      else some (s.dropClient fd, [.closed fd])
    | .error => some (s.dropClient fd, [.closed fd])

end Server

/-! ## The loop of `main` -/

/-- `main` at the head of its `for` loop. -/
structure MainLoop where
  server : Server
  tmpFds : Int → Bool
  fd : Int

/-- `main` before its first `select`: as after a loop over no descriptors. -/
def MainLoop.start (serverSocket : Int) (screen : Screen) (fbp chunk : Mem) : MainLoop where
  server := Projector.start serverSocket screen fbp chunk
  tmpFds := fun _ => false
  fd := maxClientNum

/-- What happens next in `main`, or to it: `select` returns a set, the loop goes on to the next
descriptor, or a thread stores into the globals. -/
inductive MainInput where
  | select (tmpFds : Int → Bool)
  | next (a : Accepted) (r : ReadResult)
  | thread (focusFd readyFd : Int)

/-- One event of the main loop. -/
def MainLoop.step (tj : TurboJpeg) (l : MainLoop) : MainInput → Option (MainLoop × List Output)
  | .select tmpFds =>
    if l.fd = maxClientNum then some ({ l with tmpFds := tmpFds, fd := 0 }, []) else none
  | .next a r =>
    if l.fd < maxClientNum then
      if l.tmpFds l.fd then do
        let (s, o) ← l.server.serve tj l.fd a r
        some ({ l with server := s, fd := l.fd + 1 }, o)
      else some ({ l with fd := l.fd + 1 }, [])
    else none
  | .thread focusFd readyFd =>
    some ({ l with server := { l.server with focusFd := focusFd, readyFd := readyFd } }, [])

/-! ## The server as a system of atomic steps -/

/-- The inputs of the system. -/
inductive Input where
  | accept (a : Accepted)
  | read (fd : Int) (bytes : List UInt8) (heap : Heap)
  | close (fd : Int)
  | observe (beyond : Int → Bool) (ws : List Int)
  | list (beyond : Int → Bool) (fresh : Mem)

/-- The connection that an input is about. -/
def Input.connection : Input → Option Int
  | .read fd _ _ => some fd
  | .close fd => some fd
  | _ => none

/-- One atomic step. `accept` returns some descriptor that is not open, `read` and end of file happen on
connections. -/
def Server.step (tj : TurboJpeg) (s : Server) : Input → Option (Server × List Output)
  | .accept a =>
    if 0 ≤ a.fd ∧ s.readFds a.fd = false then some (s.acceptClient a, [.accepted a.fd]) else none
  | .read fd bytes heap =>
    if s.readFds fd = true ∧ fd ≠ s.serverSocket ∧ 0 < bytes.length ∧ bytes.length ≤ maxBuf then
      s.readData tj fd bytes heap
    else none
  | .close fd =>
    if s.readFds fd = true ∧ fd ≠ s.serverSocket then some (s.dropClient fd, [.closed fd]) else none
  | .observe beyond ws => s.observe beyond ws
  | .list beyond fresh => some (s, s.sendList beyond fresh)

end Projector
