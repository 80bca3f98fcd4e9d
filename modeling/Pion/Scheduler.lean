import Mathlib.Data.UInt
import Pion.Lib.WaitTimer

/-!
# The scheduler

`scheduler`: a pool of threads that run the handlers of an `io_service`. The application's threads
and the handlers call its functions, at any time and in any order. Each works with the mutex held;
`shutdown` gives it up while it waits for active users, but not while it joins the threads of the
pool.

Threads are named by numbers. The first ones are the application's, the others have been started by
`startup`. `io_service` is seen by the timer that keeps it busy; other handlers may be ready at any
time, and may do anything. Conditions may be left without being notified.
-/

namespace Pion

open Lib

/-- What a thread is about to do with the mutex. -/
inductive SchedulerCall where
  | startup
  | shutdown
  | join
  /-- `add_active_user`, and whether it calls `startup` first. -/
  | addActiveUser (startsUp : Bool)
  | removeActiveUser
  deriving DecidableEq

/-- Where a thread is. -/
inductive SchedulerPlace where
  /-- None of the others. A thread of the pool is in a handler. -/
  | outside
  | locks (c : SchedulerCall)
  /-- In `shutdown`, waiting on `no_more_active_users`. -/
  | waitsForUsers (notified : Bool)
  /-- In `shutdown`, in `stop_threads` with the mutex held. -/
  | joins (wasRunning : Bool)
  /-- In `join`, waiting on `scheduler_has_stopped`. -/
  | waitsForStop (notified : Bool)
  /-- In `process_service_work`, about to look at `running`. -/
  | tests
  /-- In `service.run()`. -/
  | runs
  /-- In the callback of the timer, about to look at `running`. -/
  | keepsRunning
  | ended
  deriving DecidableEq

def SchedulerPlace.isJoins : SchedulerPlace → Bool
  | joins _ => true
  | outside | locks _ | waitsForUsers _ | waitsForStop _ | tests | runs | keepsRunning | ended => false

/-- Only the threads of the pool come there. -/
def SchedulerPlace.ofPool : SchedulerPlace → Bool
  | tests | runs | keepsRunning | ended => true
  | outside | locks _ | waitsForUsers _ | joins _ | waitsForStop _ => false

/-- A thread there needs the mutex before it goes on. -/
def SchedulerPlace.needsMutex : SchedulerPlace → Bool
  | locks _ | waitsForUsers _ | waitsForStop _ => true
  | outside | joins _ | tests | runs | keepsRunning | ended => false

def SchedulerPlace.notifyUsers : SchedulerPlace → SchedulerPlace
  | waitsForUsers _ => waitsForUsers true
  | p => p

def SchedulerPlace.notifyStop : SchedulerPlace → SchedulerPlace
  | waitsForStop _ => waitsForStop true
  | p => p

structure Scheduler where
  numThreads : Nat
  activeUsers : UInt32 := 0
  running : Bool := false
  threadPool : List Nat := []
  /-- Whether `asio_service` has been stopped, and not been reset. -/
  stopped : Bool := false
  timer : WaitTimer Unit := {}
  /-- How many threads are the application's. -/
  clients : Nat
  threads : List SchedulerPlace
  /-- A thread of the pool has been destroyed before it was joined: `std::terminate`. -/
  terminated : Bool := false
  deriving DecidableEq

namespace Scheduler

def initial (numThreads clients : Nat) : Scheduler where
  numThreads := numThreads
  clients := clients
  threads := List.replicate clients .outside

/-- The mutex is held. Sections that do not block are taken in one step, so only `stop_threads` is
seen to hold it. -/
def locked (s : Scheduler) : Bool := s.threads.any SchedulerPlace.isJoins

def moved (s : Scheduler) (t : Nat) (p : SchedulerPlace) : Scheduler :=
  { s with threads := s.threads.set t p }

/-- `no_more_active_users.notify_all()`. -/
def notifyUsers (s : Scheduler) : Scheduler :=
  { s with threads := s.threads.map SchedulerPlace.notifyUsers }

/-- `scheduler_has_stopped.notify_all()`. -/
def notifyStop (s : Scheduler) : Scheduler :=
  { s with threads := s.threads.map SchedulerPlace.notifyStop }

/-! ## The functions -/

/-- `keep_running`. Its callback calls it again, whatever the error code. -/
def keepRunning (s : Scheduler) : Scheduler :=
  if s.running then { s with timer := s.timer.setTo () } else s

/-- The threads are started. -/
def startThreads (s : Scheduler) : Scheduler :=
  { s with
    threads := s.threads ++ List.replicate s.numThreads .tests
    threadPool := s.threadPool ++ List.range' s.threads.length s.numThreads }

/-- `startup`. -/
def startup (s : Scheduler) : Scheduler :=
  if s.running then s else ({ s with running := true, stopped := false }.keepRunning).startThreads

/-- `shutdown`, from where the scheduler is stopped to where its threads are joined. -/
def stopService (s : Scheduler) : Scheduler := { s with running := false, stopped := true }

/-- The loop of `shutdown`. -/
def awaitUsers (s : Scheduler) (t : Nat) : Scheduler :=
  if 0 < s.activeUsers then s.moved t (.waitsForUsers false) else s.stopService.moved t (.joins true)

/-- The loop of `join`. -/
def awaitStop (s : Scheduler) (t : Nat) : Scheduler :=
  if s.running then s.moved t (.waitsForStop false) else s.moved t .outside

/-- `add_active_user` looks at `running` in front of the mutex. -/
def look (s : Scheduler) : SchedulerCall → SchedulerCall
  | .addActiveUser _ => .addActiveUser !s.running
  | c => c

/-- The mutex has been locked. -/
def enter (s : Scheduler) (t : Nat) : SchedulerCall → Scheduler
  | .startup => s.startup.moved t .outside
  | .shutdown => if s.running then s.awaitUsers t else s.stopService.moved t (.joins false)
  | .join => s.awaitStop t
  | .addActiveUser true => s.startup.moved t (.locks (.addActiveUser false))
  | .addActiveUser false => { s with activeUsers := s.activeUsers + 1 }.moved t .outside
  | .removeActiveUser =>
    let s := { s with activeUsers := s.activeUsers - 1 }
    (if s.activeUsers = 0 then s.notifyUsers else s).moved t .outside

/-- All threads of the pool have been joined, apart from the one that joins them. -/
def joined (s : Scheduler) (t : Nat) : Prop :=
  ∀ k ∈ s.threadPool, k ≠ t → s.threads[k]? = some .ended

instance (s : Scheduler) (t : Nat) : Decidable (s.joined t) :=
  inferInstanceAs (Decidable (∀ k ∈ s.threadPool, k ≠ t → s.threads[k]? = some .ended))

/-- `shutdown`, behind `stop_threads`. -/
def finishShutdown (s : Scheduler) (t : Nat) : Scheduler :=
  if t ∈ s.threadPool then { s with terminated := true }
  else ({ s with stopped := false, threadPool := [] }.notifyStop).moved t .outside

/-! ## What can happen -/

inductive Event where
  /-- A thread calls a function, and comes to where it locks the mutex. -/
  | call (t : Nat) (c : SchedulerCall)
  | enter (t : Nat)
  /-- A thread comes back from waiting on a condition. -/
  | wake (t : Nat)
  | joined (t : Nat)
  /-- A thread of the pool looks at `running`. -/
  | test (t : Nat)
  /-- `service.run()` returns: the service has been stopped, or is out of work. -/
  | leave (t : Nat)
  /-- `service.run()` calls a handler, other than the callback of the timer. -/
  | handle (t : Nat)
  /-- The handler returns, or throws. -/
  | returns (t : Nat) (throws : Bool)
  /-- `service.run()` calls the callback of the timer. -/
  | callback (t i : Nat)
  | keepRunning (t : Nat)
  | expire

def step (s : Scheduler) (e : Event) : Option Scheduler :=
  if s.terminated then none
  else
    match e with
    | .call t c => if s.threads[t]? = some .outside then some (s.moved t (.locks (s.look c))) else none
    | .enter t =>
      match s.threads[t]? with
      | some (.locks c) => if s.locked then none else some (s.enter t c)
      | _ => none
    | .wake t =>
      match s.threads[t]? with
      | some (.waitsForUsers _) => if s.locked then none else some (s.awaitUsers t)
      | some (.waitsForStop _) => if s.locked then none else some (s.awaitStop t)
      | _ => none
    | .joined t =>
      match s.threads[t]? with
      | some (.joins _) => if s.joined t then some (s.finishShutdown t) else none
      | _ => none
    | .test t =>
      if s.threads[t]? = some .tests then some (s.moved t (if s.running then .runs else .ended)) else none
    | .leave t =>
      if s.threads[t]? = some .runs ∧ (s.stopped ∨ s.timer.waits = []) then some (s.moved t .tests) else none
    | .handle t => if s.threads[t]? = some .runs ∧ ¬ s.stopped then some (s.moved t .outside) else none
    | .returns t throws =>
      if s.clients ≤ t ∧ s.threads[t]? = some .outside then
        some (s.moved t (if throws then .tests else .runs))
      else none
    | .callback t i =>
      if s.threads[t]? = some .runs ∧ ¬ s.stopped ∧ i < s.timer.ready.length then
        some ({ s with timer := s.timer.take i }.moved t .keepsRunning)
      else none
    | .keepRunning t => if s.threads[t]? = some .keepsRunning then some (s.keepRunning.moved t .runs) else none
    | .expire => if s.timer.armed = [] then none else some { s with timer := s.timer.expire }

/-! ## Kinds of events -/

/-- The section of `add_active_user` or of `remove_active_user` that counts. -/
def counts (s : Scheduler) : Event → Bool
  | .enter t =>
    match s.threads[t]? with
    | some (.locks (.addActiveUser false)) | some (.locks .removeActiveUser) => true
    | _ => false
  | _ => false

/-- A section that starts the scheduler. -/
def begins (s : Scheduler) : Event → Bool
  | .enter t =>
    match s.threads[t]? with
    | some (.locks .startup) | some (.locks (.addActiveUser true)) => !s.running
    | _ => false
  | _ => false

/-- A callback of the timer that finds that the scheduler does not run. -/
def dies (s : Scheduler) : Event → Bool
  | .keepRunning _ => !s.running
  | _ => false

end Scheduler

end Pion
