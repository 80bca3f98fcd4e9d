import Pion.Proof.Scheduler
import Pion.ServerLifecycle

/-!
# The calls of the scheduler take effect at once

A server's model of its scheduler has two fields, and functions that work on them in one step. The
scheduler has a mutex, conditions that threads wait on, and threads that it joins. Between any two
events it is what the calls that have taken effect so far make of the two fields, one after another.
-/

namespace Pion.Proof

open Pion Lib Scheduler

/-- A call that takes effect. -/
inductive Effect where
  | startup
  | addActiveUser
  | removeActiveUser
  | shutdown
  deriving DecidableEq

/-- What the server's model makes of it. -/
def serverEffect (v : ServerState) : Effect → Option ServerState
  | .startup => some v.startup
  | .addActiveUser => some v.addActiveUser
  | .removeActiveUser => some v.removeActiveUser
  | .shutdown => v.shutdown

/-- The calls that take effect in an event: that of the thread that has locked the mutex, unless it
has to wait. -/
def effects (s : Scheduler) : Event → List Effect
  | .enter t =>
    match s.threads[t]? with
    | some (.locks .startup) | some (.locks (.addActiveUser true)) => [.startup]
    | some (.locks (.addActiveUser false)) => [.addActiveUser]
    | some (.locks .removeActiveUser) => [.removeActiveUser]
    | some (.locks .shutdown) => if s.running ∧ 0 < s.activeUsers then [] else [.shutdown]
    | _ => []
  | .wake t =>
    match s.threads[t]? with
    | some (.waitsForUsers _) => if 0 < s.activeUsers then [] else [.shutdown]
    | _ => []
  | _ => []

/-- The machine of the scheduler, with the calls that have taken effect. -/
def stepEffecting : Scheduler × List Effect → Event → Option (Scheduler × List Effect) :=
  tracked Scheduler.step fun s e log => log ++ effects s e

/-- A server with this scheduler. -/
def withScheduler (v : ServerState) (s : Scheduler) : ServerState :=
  { v with activeUsers := s.activeUsers, running := s.running }

variable {v : ServerState}

theorem withScheduler_startup (s : Scheduler) : withScheduler v s.startup = (withScheduler v s).startup := by
  cases hrun : s.running with
  | true =>
    rw [show s.startup = s from if_pos hrun]
    unfold withScheduler ServerState.startup
    rw [hrun]
  | false =>
    rw [startup_eq hrun]
    rfl

/-- The loop of `shutdown` is left when there are no active users. -/
theorem withScheduler_awaitUsers (s : Scheduler) (t : Nat) :
    exec serverEffect (withScheduler v s) (if 0 < s.activeUsers then [] else [.shutdown]) =
      some (withScheduler v (s.awaitUsers t)) := by
  unfold awaitUsers
  by_cases husers : 0 < s.activeUsers
  · rw [if_pos husers, if_pos husers]
    rfl
  · rw [if_neg husers, if_neg husers]
    have hpasses : (withScheduler v s).shutdown = some { withScheduler v s with running := false } :=
      if_neg fun h => husers h.2
    simp only [exec, serverEffect, hpasses, Option.bind_some]
    rfl

theorem withScheduler_awaitStop (s : Scheduler) (t : Nat) : withScheduler v (s.awaitStop t) = withScheduler v s := by
  unfold awaitStop
  split <;> rfl

theorem enter_effects {s : Scheduler} {t : Nat} {c : SchedulerCall} (h : s.threads[t]? = some (.locks c)) :
    exec serverEffect (withScheduler v s) (effects s (.enter t)) = some (withScheduler v (s.enter t c)) := by
  dsimp only [effects]
  rw [h]
  cases c with
  | startup => exact congrArg some (withScheduler_startup s).symm
  | join => exact congrArg some (withScheduler_awaitStop s t).symm
  | addActiveUser startsUp =>
    cases startsUp with
    | true => exact congrArg some (withScheduler_startup s).symm
    | false => rfl
  | removeActiveUser =>
    show some (withScheduler v s).removeActiveUser =
      some (withScheduler v ((if s.activeUsers - 1 = 0 then _ else _ : Scheduler).moved t .outside))
    split
    · rfl
    · rfl
  | shutdown =>
    show exec serverEffect (withScheduler v s) (if s.running ∧ 0 < s.activeUsers then [] else [.shutdown]) =
      some (withScheduler v (if s.running then s.awaitUsers t else s.stopService.moved t (.joins false)))
    by_cases hrun : s.running = true
    · rw [if_pos hrun, ← withScheduler_awaitUsers s t]
      by_cases husers : 0 < s.activeUsers
      · rw [if_pos ⟨hrun, husers⟩, if_pos husers]
      · rw [if_neg fun h => husers h.2, if_neg husers]
    · -- nobody is waited for by a scheduler that does not run
      rw [if_neg hrun, if_neg fun h => hrun h.1]
      have hpasses : (withScheduler v s).shutdown = some { withScheduler v s with running := false } :=
        if_neg fun h => hrun h.1
      simp only [exec, serverEffect, hpasses, Option.bind_some]
      rfl

theorem step_effects {s s' : Scheduler} {e : Event} (h : s.step e = some s') :
    exec serverEffect (withScheduler v s) (effects s e) = some (withScheduler v s') := by
  unfold Scheduler.step at h
  split at h
  · cases h
  cases e with
  | enter t =>
    simp only at h
    split at h
    · rename_i c ht
      simp only [Option.ite_none_left_eq_some, Option.some.injEq] at h
      obtain ⟨_, rfl⟩ := h
      exact enter_effects ht
    · cases h
  | wake t =>
    simp only at h
    split at h
    · rename_i ht
      simp only [Option.ite_none_left_eq_some, Option.some.injEq] at h
      obtain ⟨_, rfl⟩ := h
      dsimp only [effects]
      rw [ht]
      exact withScheduler_awaitUsers s t
    · rename_i ht
      simp only [Option.ite_none_left_eq_some, Option.some.injEq] at h
      obtain ⟨_, rfl⟩ := h
      dsimp only [effects]
      rw [ht]
      exact congrArg some (withScheduler_awaitStop s t).symm
    · cases h
  | joined t =>
    simp only at h
    split at h
    · simp only [Option.ite_none_right_eq_some, Option.some.injEq] at h
      obtain ⟨_, rfl⟩ := h
      unfold finishShutdown
      split <;> rfl
    · cases h
  | keepRunning t =>
    simp only [Option.ite_none_right_eq_some, Option.some.injEq] at h
    obtain ⟨_, rfl⟩ := h
    unfold Scheduler.keepRunning
    split <;> rfl
  | expire =>
    simp only [Option.ite_none_left_eq_some, Option.some.injEq] at h
    obtain ⟨_, rfl⟩ := h
    rfl
  | call | test | leave | handle | returns | callback =>
    simp only [Option.ite_none_right_eq_some, Option.some.injEq] at h
    obtain ⟨_, rfl⟩ := h
    rfl

/--
**The scheduler refines the server's model of it.** In every run, whatever its threads wait for, the
scheduler is what the calls that have taken effect so far make of it, each in one step; and a
`shutdown` has taken effect only where the model does not wait.
-/
theorem effects_compose (n clients : Nat) (es : List Event) (s : Scheduler) (log : List Effect) (v : ServerState)
    (h : exec stepEffecting (.initial n clients, []) es = some (s, log)) :
    exec serverEffect (withScheduler v (.initial n clients)) log = some (withScheduler v s) := by
  refine exec_invariant (fun _ (u : Scheduler × List Effect) =>
    exec serverEffect (withScheduler v (.initial n clients)) u.2 = some (withScheduler v u.1)) rfl ?_ h
  rintro _ ⟨u, l⟩ e ⟨u', l'⟩ _ hsofar hstep
  obtain ⟨hstep, hnote⟩ := tracked_eq_some.mp hstep
  obtain rfl := hnote
  exact exec_trans hsofar (step_effects hstep)

/-- A `shutdown` waits for the user that is there. -/
def waitsAndStops : List Event :=
  [.call 0 .startup, .enter 0, .call 0 (.addActiveUser false), .enter 0, .call 1 .shutdown, .enter 1,
    .call 0 .removeActiveUser, .enter 0, .wake 1]

theorem effects_compose_waits : ∃ s,
    exec stepEffecting (.initial 1 2, []) waitsAndStops =
      some (s, [.startup, .addActiveUser, .removeActiveUser, .shutdown]) ∧
    exec serverEffect (withScheduler { port := 80 } (.initial 1 2))
      [.startup, .addActiveUser, .removeActiveUser, .shutdown] = some (withScheduler { port := 80 } s) :=
  ⟨_, rfl, effects_compose 1 2 waitsAndStops _ _ { port := 80 } rfl⟩

end Pion.Proof
