import Mathlib.Data.List.Basic

/-!
# Starting and stopping

`tcp_server::start` and `stop`, with what they call of the acceptor and of the scheduler. Both
work in sections that have the server's mutex; `start` gives it up before it calls `listen` and
`add_active_user`, `stop` while it waits for connections to finish. The sections of any number of
threads may come in any order.

A connection is named by a number. What is done to the sockets of the connections is left out.
-/

namespace Pion

/-- The calls of `start` that may throw. -/
inductive StartStep where
  | open | setOption | bind | localEndpoint | listen
  deriving DecidableEq

/-- What the library makes of a `start`: the calls that it refuses, and the port that it binds to
when it is given the choice. -/
structure StartEnv where
  refuses : StartStep → Bool
  port : UInt16

/-- How the first section of `start` ends. -/
inductive StartResult where
  /-- The server was listening already. -/
  | already
  | threw (step : StartStep)
  | listens
  deriving DecidableEq

/-- The fields of `tcp_server` and of its `scheduler`. -/
structure ServerState where
  listening : Bool := false
  /-- `tcp_acceptor.is_open()`. -/
  acceptorOpen : Bool := false
  /-- `tcp_endpoint.port()`. -/
  port : UInt16
  connPool : List Nat := []
  activeUsers : UInt32 := 0
  /-- The scheduler's flag. -/
  running : Bool := false
  deriving DecidableEq

namespace ServerState

/-! ## The scheduler -/

/-- `scheduler::startup`. -/
def startup (s : ServerState) : ServerState := { s with running := true }

/-- `add_active_user`, behind its look at `running`. -/
def addActiveUser (s : ServerState) : ServerState := { s with activeUsers := s.activeUsers + 1 }

/-- `remove_active_user`. -/
def removeActiveUser (s : ServerState) : ServerState := { s with activeUsers := s.activeUsers - 1 }

/-- `shutdown`, which waits as long as there are active users. -/
def shutdown (s : ServerState) : Option ServerState :=
  if s.running ∧ 0 < s.activeUsers then none else some { s with running := false }

/-! ## Starting -/

/-- The `try` block of `start`, as far as the step that throws. An acceptor that is open cannot
be opened; nothing here closes it again. -/
def configure (s : ServerState) (env : StartEnv) : ServerState × Option StartStep :=
  if s.acceptorOpen ∨ env.refuses .open then (s, some .open)
  else
    let s := { s with acceptorOpen := true }
    if env.refuses .setOption then (s, some .setOption)
    else if env.refuses .bind then (s, some .bind)
    else if s.port = 0 ∧ env.refuses .localEndpoint then (s, some .localEndpoint)
    else
      let s := { s with port := if s.port = 0 then env.port else s.port }
      if env.refuses .listen then (s, some .listen) else (s, none)

/-- `start`, up to where it unlocks the mutex. -/
def startSection (s : ServerState) (env : StartEnv) : ServerState × StartResult :=
  if s.listening then (s, .already)
  else
    match s.configure env with
    | (s, some step) => (s, .threw step)
    | (s, none) => ({ s with listening := true }, .listens)

/-- `prune_connections`: drop the connections that nothing else refers to. -/
def pruneConnections (s : ServerState) (orphan : Nat → Bool) : ServerState :=
  { s with connPool := s.connPool.filter fun k => !orphan k }

/-- `listen`, with a new connection `k`. -/
def listen (s : ServerState) (k : Nat) (orphan : Nat → Bool) : ServerState :=
  if s.listening then { s with connPool := k :: (s.pruneConnections orphan).connPool } else s

/-- A whole `start`, with nothing in between its sections. -/
def start (s : ServerState) (env : StartEnv) (k : Nat) (orphan : Nat → Bool) :
    ServerState × StartResult :=
  match s.startSection env with
  | (s, .listens) => ((s.listen k orphan).startup.addActiveUser, .listens)
  | r => r

/-! ## Stopping -/

/-- The loop of `stop`, from its test to where it waits or is done: `true` when it is done. -/
def drain (s : ServerState) (orphan : Nat → Bool) : ServerState × Bool :=
  if s.connPool = [] then (s.removeActiveUser, true)
  else
    let s := s.pruneConnections orphan
    if s.connPool = [] then (s.removeActiveUser, true) else (s, false)

/-- `stop`, as far as its loop. -/
def closeAcceptor (s : ServerState) : ServerState := { s with listening := false, acceptorOpen := false }

end ServerState

/-! ## Threads -/

/-- Where a thread is. -/
inductive Place where
  | outside
  /-- In `start`, about to call `listen`. -/
  | listens
  /-- In `start`, about to call `add_active_user`. -/
  | adds
  /-- In `add_active_user`, about to count. -/
  | counts
  /-- In `stop`, waiting for connections to finish. -/
  | waits
  deriving DecidableEq

/-- A server, and the threads that start and stop it. -/
structure ServerThreads where
  server : ServerState
  threads : List Place

namespace ServerThreads

def initial (port : UInt16) (n : Nat) : ServerThreads where
  server := { port := port }
  threads := List.replicate n .outside

/-- What can happen next; `t` is the thread. -/
inductive Event where
  | start (t : Nat) (env : StartEnv)
  | listen (t k : Nat) (orphan : Nat → Bool)
  | startup (t : Nat)
  | addActiveUser (t : Nat)
  | stop (t : Nat) (orphan : Nat → Bool)
  /-- A thread comes back from its wait in `stop`. -/
  | wake (t : Nat) (orphan : Nat → Bool)
  /-- `handle_accept` listens for the next connection. -/
  | accept (k : Nat) (orphan : Nat → Bool)
  /-- `finish_connection` takes a connection out of the pool. -/
  | finish (k : Nat)
  /-- The scheduler is shut down. -/
  | shutdown

/-- A thread comes to a place, and leaves the server in some state. -/
def moved (w : ServerThreads) (t : Nat) (p : Place) (s : ServerState) : ServerThreads where
  server := s
  threads := w.threads.set t p

/-- The place behind a pass of the loop of `stop`. -/
def afterDrain (done : Bool) : Place := if done then .outside else .waits

def step (w : ServerThreads) : Event → Option ServerThreads
  | .start t env =>
    if w.threads[t]? = some .outside then
      match w.server.startSection env with
      | (s, .listens) => some (w.moved t .listens s)
      -- it returns, or throws
      | (s, _) => some (w.moved t .outside s)
    else none
  | .listen t k orphan =>
    if w.threads[t]? = some .listens then some (w.moved t .adds (w.server.listen k orphan)) else none
  | .startup t =>
    if w.threads[t]? = some .adds then
      some (w.moved t .counts (if w.server.running then w.server else w.server.startup))
    else none
  | .addActiveUser t =>
    if w.threads[t]? = some .counts then some (w.moved t .outside w.server.addActiveUser) else none
  | .stop t orphan =>
    if w.threads[t]? = some .outside then
      if w.server.listening then
        let (s, done) := w.server.closeAcceptor.drain orphan
        some (w.moved t (afterDrain done) s)
      else some w
    else none
  | .wake t orphan =>
    if w.threads[t]? = some .waits then
      let (s, done) := w.server.drain orphan
      some (w.moved t (afterDrain done) s)
    else none
  | .accept k orphan => some { w with server := w.server.listen k orphan }
  | .finish k => some { w with server := { w.server with connPool := w.server.connPool.filter (· ≠ k) } }
  | .shutdown => w.server.shutdown.map fun s => { w with server := s }

end ServerThreads

end Pion
