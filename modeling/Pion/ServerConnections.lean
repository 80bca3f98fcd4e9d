import Pion.ServerLifecycle

/-!
# The connections of a server

`tcp_server`, with every connection that `listen` makes: waiting for the acceptor, in the handler of
its acceptance, in its SSL handshake, with whatever `handle_connection` has started, and in
`finish_connection`. The handlers of the connections run in between the calls of `start` and
`stop`, and any of the acceptor's and the sockets' operations may fail. To close the sockets, as
`stop(false)` does, only makes them fail.

`handle_accept` reads `listening` without the mutex. `finish_connection` is left with the mutex held
as long as `handle_connection` takes; a handler that comes back to it meanwhile is `TcpServer`'s
matter, and to be finished twice is that of the writers.
-/

namespace Pion

/-- Where a connection is. -/
inductive ConnPlace where
  /-- Given to `async_accept`. -/
  | accepting
  /-- In `handle_accept`, about to look at `listening`. -/
  | accepted (ok : Bool)
  /-- In `handle_accept`, about to call `listen`. -/
  | listensNext (ok : Bool)
  | handshaking
  /-- With what `handle_connection` has started. -/
  | handled
  /-- In `finish_connection`, about to lock the mutex. -/
  | finishing (keepAlive : Bool)
  /-- Only the pool refers to it. -/
  | dropped
  | closed
  deriving DecidableEq

namespace ConnPlace

/-- The connection will be replaced at the acceptor by the next one. -/
def accepts : ConnPlace → Bool
  | accepting | accepted _ | listensNext _ => true
  | handshaking | handled | finishing _ | dropped | closed => false

/-- `prune_connections` closes it. -/
def pruned : ConnPlace → ConnPlace
  | dropped => closed
  | p => p

/-- `handle_accept`, behind its call of `listen`. A connection that has not been handled is not to
be kept alive. -/
def afterAccept (ssl ok : Bool) : ConnPlace :=
  if ok then if ssl then handshaking else handled else finishing false

end ConnPlace

/-- A server, its threads, and all connections that it has made so far. The numbers of the
connections are their places in the list. -/
structure ServerConns where
  threads : ServerThreads
  conns : List ConnPlace := []
  sslFlag : Bool

namespace ServerConns

def initial (port : UInt16) (n : Nat) (ssl : Bool) : ServerConns where
  threads := .initial port n
  sslFlag := ssl

/-- `unique()`, of the connection's pointer in the pool. -/
def orphan (w : ServerConns) (k : Nat) : Bool := w.conns[k]? = some .dropped

def setConn (w : ServerConns) (k : Nat) (p : ConnPlace) : ServerConns :=
  { w with conns := w.conns.set k p }

/-- The connections behind `listen`. -/
def afterListen (w : ServerConns) : List ConnPlace :=
  if w.threads.server.listening then w.conns.map ConnPlace.pruned ++ [.accepting] else w.conns

/-- The connections behind a pass of the loop of `stop`. -/
def afterDrain (w : ServerConns) : List ConnPlace :=
  if w.threads.server.connPool = [] then w.conns else w.conns.map ConnPlace.pruned

inductive Event where
  | start (t : Nat) (env : StartEnv)
  | listen (t : Nat)
  | startup (t : Nat)
  | addActiveUser (t : Nat)
  | stop (t : Nat)
  | wake (t : Nat)
  | shutdown
  /-- `handle_accept` is called. -/
  | accept (k : Nat) (ok : Bool)
  /-- `handle_accept` looks at `listening`. -/
  | look (k : Nat)
  /-- `handle_accept` calls `listen`, and goes on. -/
  | listenNext (k : Nat)
  /-- `handle_ssl_handshake` is called. -/
  | handshake (k : Nat) (ok : Bool)
  /-- `tcp_conn->finish()` is called. -/
  | finish (k : Nat) (keepAlive : Bool)
  /-- The last of the others that refer to the connection is gone, and has not finished it. -/
  | drop (k : Nat)
  | finishConnection (k : Nat)

def step (w : ServerConns) : Event → Option ServerConns
  | .start t env => (w.threads.step (.start t env)).map fun ts => { w with threads := ts }
  | .listen t =>
    (w.threads.step (.listen t w.conns.length w.orphan)).map fun ts =>
      { w with threads := ts, conns := w.afterListen }
  | .startup t => (w.threads.step (.startup t)).map fun ts => { w with threads := ts }
  | .addActiveUser t => (w.threads.step (.addActiveUser t)).map fun ts => { w with threads := ts }
  | .stop t =>
    (w.threads.step (.stop t w.orphan)).map fun ts =>
      { w with threads := ts, conns := if w.threads.server.listening then w.afterDrain else w.conns }
  | .wake t =>
    (w.threads.step (.wake t w.orphan)).map fun ts => { w with threads := ts, conns := w.afterDrain }
  | .shutdown => (w.threads.step .shutdown).map fun ts => { w with threads := ts }
  | .accept k ok => if w.conns[k]? = some .accepting then some (w.setConn k (.accepted ok)) else none
  | .look k =>
    match w.conns[k]? with
    | some (.accepted ok) =>
      some (w.setConn k
        (if w.threads.server.listening then .listensNext ok else .afterAccept w.sslFlag ok))
    | _ => none
  | .listenNext k =>
    match w.conns[k]? with
    | some (.listensNext ok) =>
      (w.threads.step (.accept w.conns.length w.orphan)).map fun ts =>
        { w with threads := ts, conns := w.afterListen }.setConn k (.afterAccept w.sslFlag ok)
    | _ => none
  | .handshake k ok =>
    if w.conns[k]? = some .handshaking then
      some (w.setConn k (if ok then .handled else .finishing false))
    else none
  | .finish k keepAlive =>
    if w.conns[k]? = some .handled then some (w.setConn k (.finishing keepAlive)) else none
  | .drop k => if w.conns[k]? = some .handled then some (w.setConn k .dropped) else none
  | .finishConnection k =>
    match w.conns[k]? with
    | some (.finishing keepAlive) =>
      if w.threads.server.listening ∧ keepAlive then some (w.setConn k .handled)
      else (w.threads.step (.finish k)).map fun ts => { w with threads := ts }.setConn k .closed
    | _ => none

/-- How many connections there are for the acceptor: it has them, or they are about to be made. -/
def acceptors (w : ServerConns) : Nat :=
  w.conns.countP ConnPlace.accepts + w.threads.threads.countP (· = .listens)

end ServerConns

end Pion
