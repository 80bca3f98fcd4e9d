import Pion.HttpRequestReader
import Pion.HttpResponseWriter

/-!
# The TCP server

`tcp_server`: its pool of connections, and the mutex that it holds whenever it works on the
pool. The mutex is not recursive. `finish_connection` has it while it calls
`handle_connection`, and for a connection with bytes behind the bookmark that means: while the
next request is parsed and dispatched.

A connection is named by a number. The completion handlers of different connections may run at
the same time, but they share only the pool, which is worked on with the mutex held; so they are
taken one at a time. Sockets that are being accepted, pruning and restarting are left out.
-/

namespace Pion

/-- A `std::mutex`. -/
inductive Mutex where
  | free
  | held
  /-- The thread that holds it has locked it again: it waits for itself. -/
  | deadlocked
  deriving DecidableEq

namespace Mutex

def lock : Mutex → Mutex
  | free => held
  | held | deadlocked => deadlocked

def unlock : Mutex → Mutex
  | free | held => free
  | deadlocked => deadlocked

end Mutex

structure TcpServer where
  http : HttpServer
  mutex : Mutex := .free
  connPool : List Nat := []
  sessions : Nat → Session

/-- Which handlers use the writer that they are given before they return. The others keep it and
answer later, from elsewhere. -/
abbrev AtOnce := Dispatch → Bool

namespace TcpServer

def initial (http : HttpServer) : TcpServer where
  http := http
  sessions := fun _ => { Session.initial with phase := .closed }

def setSession (w : TcpServer) (k : Nat) (c : Session) : TcpServer :=
  { w with sessions := fun n => if n = k then c else w.sessions n }

def lock (w : TcpServer) : TcpServer := { w with mutex := w.mutex.lock }

def unlock (w : TcpServer) : TcpServer := { w with mutex := w.mutex.unlock }

/-- Whether `handle_request` calls `tcp_conn->finish()` before it returns: on its own, or through
a handler whose writer has lost the connection. -/
def finishesAtOnce (x : Externals) (atOnce : AtOnce) (conn : TcpConnection) (m : HttpRequest)
    (d : Dispatch) : Bool :=
  match d with
  | .finish => true
  -- the handshake is written without a look at the socket
  | .websocket _ _ _ => false
  | .rootOptions => ((HttpResponseWriter.new conn m).send x).2 = .finish
  | .badRequest | .notFound | .handler _ => atOnce d && ((HttpResponseWriter.new conn m).send x).2 = .finish

/-- `finish_connection`. What `handle_connection` calls may come back to it. -/
def finishConnection (x : Externals) (atOnce : AtOnce) (w : TcpServer) (k i j : Nat) : TcpServer :=
  let w := w.lock
  let c := w.sessions k
  if w.http.listening ∧ c.conn.getKeepAlive then
    let c := c.handleConnection x w.http i j
    let w := w.setSession k c
    match c.phase with
    | .handling d => if finishesAtOnce x atOnce c.conn c.reader.request d then w.lock.unlock else w.unlock
    | .reading | .closed | .failed _ => w.unlock
  else
    ({ w with connPool := w.connPool.filter (· ≠ k) }.setSession k { c with phase := .closed }).unlock

/-- `stop`, up to the wait for the connections. -/
def stop (w : TcpServer) (waitUntilFinished : Bool) : TcpServer :=
  let w := w.lock
  let w := { w with http := { w.http with listening := false } }
  let w := if waitUntilFinished then w
    else { w with sessions := fun k =>
      let c := w.sessions k
      if k ∈ w.connPool then { c with conn := { c.conn with isOpen := false } } else c }
  w.unlock

/-- What can happen to a server. -/
inductive Event where
  /-- A connection is accepted. -/
  | accept (k i j : Nat)
  | read (k : Nat) (data : Bytes)
  | readError (k : Nat)
  /-- `tcp_conn->finish()` is called, by whatever took over the request. -/
  | finish (k i j : Nat)
  /-- The socket is closed, by the application for one. -/
  | close (k : Nat)
  | stop (waitUntilFinished : Bool)

def step (x : Externals) (atOnce : AtOnce) (w : TcpServer) : Event → Option TcpServer
  | .accept k i j =>
    if w.mutex = .free ∧ w.http.listening ∧ k ∉ w.connPool then
      -- `listen` puts the connection into the pool, `handle_accept` starts its reader
      some (({ w.lock with connPool := k :: w.connPool }.unlock).setSession k (.accepted x w.http i j))
    else none
  | .read k data =>
    if (w.sessions k).phase = .reading ∧ data ≠ [] ∧ data.length ≤ readBufferSize then
      some (w.setSession k ((w.sessions k).readCompletes x w.http data))
    else none
  | .readError k =>
    if (w.sessions k).phase = .reading then
      some (w.setSession k ((w.sessions k).handleReadError x w.http))
    else none
  | .finish k i j =>
    match (w.sessions k).phase with
    | .handling _ => if w.mutex = .free then some (w.finishConnection x atOnce k i j) else none
    | .reading | .closed | .failed _ => none
  | .close k =>
    some (w.setSession k { w.sessions k with conn := { (w.sessions k).conn with isOpen := false } })
  | .stop waitUntilFinished => if w.mutex = .free then some (w.stop waitUntilFinished) else none

end TcpServer

end Pion
