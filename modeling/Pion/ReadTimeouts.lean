import Pion.Lib.WaitTimer
import Pion.HttpRequestReader

/-!
# Reads and their timeouts

`read_bytes_with_timeout`: every read of a connection is started together with a wait on the
connection's timer. The handler of the read cancels the timer, unless the read has been aborted; the
handler of the timer cancels whatever the connection has outstanding, unless it has been aborted itself.

Both handlers go through the strand. `read_bytes_with_timeout` does not always: for the first read of a
connection, and for one that `finish()` has come to from elsewhere, the wait is started by a thread
that the handler of the read may overtake.

Reads and waits are named by the number of the read.
-/

namespace Pion

open Lib

/-- How a read ends. -/
inductive ReadResult where
  | data (bytes : Bytes)
  /-- `aborted` stands for `operation_aborted`. -/
  | error (aborted : Bool)
  deriving DecidableEq

/-- A read is given at least one byte, and at most as many as the read buffer holds. -/
def ReadResult.possible : ReadResult → Bool
  | data bytes => bytes ≠ [] && bytes.length ≤ readBufferSize
  | error _ => true

/-- The read that a connection has outstanding. -/
inductive Read where
  | none
  | pending
  /-- It is complete, and its handler has not run. -/
  | completed (r : ReadResult)
  deriving DecidableEq

structure TimedSession where
  session : Session
  read : Read := .none
  /-- How many reads have been started. -/
  reads : Nat := 0
  timer : WaitTimer Nat := {}
  /-- The reads that are started, and whose `async_wait` has still to be called. -/
  unarmed : List Nat := []

namespace TimedSession

/-- `read_bytes_with_timeout`. Outside the strand, it is taken as far as `async_read_some`. -/
def readBytesWithTimeout (w : TimedSession) (inStrand : Bool) : TimedSession :=
  { w with
    read := .pending
    reads := w.reads + 1
    timer := if inStrand then w.timer.setTo w.reads else w.timer.cancel
    unarmed := if inStrand then w.unarmed else w.unarmed ++ [w.reads] }

/-- The connection has come to `c`, and reads if it waits for the socket. -/
def goOn (w : TimedSession) (c : Session) (inStrand : Bool) : TimedSession :=
  match c.phase with
  | .reading => { w with session := c }.readBytesWithTimeout inStrand
  | .handling _ | .closed | .failed _ => { w with session := c, read := .none }

/-- The connection has been accepted. -/
def accepted (x : Externals) (server : HttpServer) (i j : Nat) : TimedSession :=
  goOn { session := .initial } (.accepted x server i j) false

/-- What `cancel()` and `close()` do to a read. -/
def abortRead (w : TimedSession) : TimedSession :=
  { w with read := if w.read = .pending then .completed (.error true) else w.read }

/-- The handler of the read. -/
def handleRead (x : Externals) (server : HttpServer) (w : TimedSession) (r : ReadResult) : TimedSession :=
  match r with
  | .data bytes => { w with timer := w.timer.cancel }.goOn (w.session.readCompletes x server bytes) true
  | .error aborted =>
    { w with timer := if aborted then w.timer else w.timer.cancel }.goOn (w.session.handleReadError x server) true

inductive Event where
  /-- The read completes. -/
  | complete (r : ReadResult)
  | handleRead
  | arm (i : Nat)
  | expire
  /-- A handler of the timer runs. -/
  | timeout (i : Nat)
  | finish (i j : Nat) (inStrand : Bool)
  /-- The socket is closed: by the application, or by a `stop`. -/
  | close

def step (x : Externals) (server : HttpServer) (w : TimedSession) : Event → Option TimedSession
  | .complete r =>
    if w.read = .pending ∧ r.possible then some { w with read := .completed r } else none
  | .handleRead =>
    match w.read with
    | .completed r => some (w.handleRead x server r)
    | .none | .pending => none
  | .arm i =>
    match w.unarmed[i]? with
    | some n => some { w with timer := w.timer.asyncWait n, unarmed := w.unarmed.eraseIdx i }
    | none => none
  | .expire => if w.timer.armed = [] then none else some { w with timer := w.timer.expire }
  | .timeout i =>
    match w.timer.ready[i]? with
    | some (_, aborted) =>
      let w := { w with timer := w.timer.take i }
      some (if aborted then w else w.abortRead)
    | none => none
  | .finish i j inStrand =>
    match w.session.phase with
    | .handling _ => some (w.goOn (w.session.finishConnection x server i j) inStrand)
    | .reading | .closed | .failed _ => none
  | .close =>
    some { w.abortRead with
      session := { w.session with conn := { w.session.conn with isOpen := false } } }

end TimedSession

end Pion
