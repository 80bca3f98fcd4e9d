import Pion.Proof.Scheduler

/-!
# The timer of the scheduler

`startup` waits on a timer, and the callback waits on it again as long as the scheduler runs, so
that the service is never out of work. The callback does not look at its error code. A wait that a
shutdown has left behind is aborted by the next `startup`, but its callback goes on all the same:
then there are two that abort each other, and one of them is always ready to run.
-/

namespace Pion.Proof

open Pion Lib Scheduler

/-- The callbacks of the timer that are being run. -/
def callbacks (s : Scheduler) : Nat := s.threads.count .keepsRunning

/-- The waits on the timer whose callbacks have not come to their end. -/
def chains (s : Scheduler) : Nat := s.timer.waits.length + callbacks s

/-- Neither is a callback ready to run nor does one run. -/
def Idle (s : Scheduler) : Prop := s.timer.ready = [] ∧ callbacks s = 0

theorem callbacks_moved {s : Scheduler} {t : Nat} {p : SchedulerPlace} (h : s.threads[t]? = some p)
    (q : SchedulerPlace) :
    callbacks (s.moved t q) + (if p = .keepsRunning then 1 else 0) =
      callbacks s + (if q = .keepsRunning then 1 else 0) := by
  obtain ⟨hlt, rfl⟩ := List.getElem?_eq_some_iff.mp h
  unfold callbacks Scheduler.moved
  rw [List.count_set hlt]
  simp only [beq_iff_eq]
  split
  · rename_i hp
    have hpos : 0 < s.threads.count .keepsRunning := List.count_pos_iff.mpr (hp ▸ List.getElem_mem hlt)
    omega
  · omega

theorem chains_moved {s : Scheduler} {t : Nat} {p q : SchedulerPlace} (h : s.threads[t]? = some p)
    (hp : p ≠ .keepsRunning) (hq : q ≠ .keepsRunning) : chains (s.moved t q) = chains s := by
  have hcount := callbacks_moved h q
  rw [if_neg hp, if_neg hq] at hcount
  exact congrArg (s.timer.waits.length + ·) hcount

theorem callbacks_notified {f : SchedulerPlace → SchedulerPlace}
    (hf : ∀ p, f p = .keepsRunning ↔ p = .keepsRunning) (s : Scheduler) :
    callbacks { s with threads := s.threads.map f } = callbacks s := by
  unfold callbacks List.count
  rw [List.countP_map]
  refine List.countP_congr fun p _ => ?_
  simp only [Function.comp_apply, beq_iff_eq]
  exact hf p

theorem chains_notifyUsers (s : Scheduler) : chains s.notifyUsers = chains s :=
  congrArg (s.timer.waits.length + ·)
    (callbacks_notified (fun p => by cases p <;> simp [SchedulerPlace.notifyUsers]) s)

theorem chains_notifyStop (s : Scheduler) : chains s.notifyStop = chains s :=
  congrArg (s.timer.waits.length + ·)
    (callbacks_notified (fun p => by cases p <;> simp [SchedulerPlace.notifyStop]) s)

/-- A `startup` begins a chain unless the scheduler runs. -/
theorem chains_startup (s : Scheduler) : chains s.startup = chains s + (!s.running).toNat := by
  cases hrun : s.running with
  | true =>
    rw [show s.startup = s from if_pos hrun]
    rfl
  | false =>
    rw [startup_eq hrun]
    unfold chains callbacks
    dsimp only
    rw [(WaitTimer.waits_setTo s.timer ()).length_eq, List.length_cons, List.count_append,
      List.count_replicate, if_neg (by simp)]
    show _ = _ + 1
    omega

theorem startup_place {s : Scheduler} {t : Nat} {p : SchedulerPlace} (h : s.threads[t]? = some p) :
    s.startup.threads[t]? = some p := by
  cases hrun : s.running with
  | true => rwa [show s.startup = s from if_pos hrun]
  | false => exact startup_threads_old hrun h

theorem chains_awaitUsers {s : Scheduler} {t : Nat} {p : SchedulerPlace} (h : s.threads[t]? = some p)
    (hp : p ≠ .keepsRunning) : chains (s.awaitUsers t) = chains s := by
  unfold awaitUsers
  split
  · exact chains_moved h hp (by simp)
  · exact chains_moved (s := s.stopService) h hp (by simp)

theorem chains_awaitStop {s : Scheduler} {t : Nat} {p : SchedulerPlace} (h : s.threads[t]? = some p)
    (hp : p ≠ .keepsRunning) : chains (s.awaitStop t) = chains s := by
  unfold awaitStop
  split <;> exact chains_moved h hp (by simp)

theorem chains_enter {s : Scheduler} {t : Nat} {c : SchedulerCall} (h : s.threads[t]? = some (.locks c)) :
    chains (s.enter t c) = chains s + (s.begins (.enter t)).toNat := by
  dsimp only [Scheduler.begins]
  rw [h]
  cases c with
  | startup => exact (chains_moved (startup_place h) (by simp) (by simp)).trans (chains_startup s)
  | shutdown =>
    show chains (if s.running then s.awaitUsers t else s.stopService.moved t (.joins false)) = _
    split
    · exact chains_awaitUsers h (by simp)
    · exact chains_moved (s := s.stopService) h (by simp) (by simp)
  | join => exact chains_awaitStop h (by simp)
  | addActiveUser startsUp =>
    cases startsUp with
    | true => exact (chains_moved (startup_place h) (by simp) (by simp)).trans (chains_startup s)
    | false => exact chains_moved (s := { s with activeUsers := s.activeUsers + 1 }) h (by simp) (by simp)
  | removeActiveUser =>
    show chains ((if s.activeUsers - 1 = 0 then _ else _ : Scheduler).moved t .outside) = _
    split
    · refine (chains_moved (p := .locks .removeActiveUser) ?_ (by simp) (by simp)).trans (chains_notifyUsers _)
      exact (List.getElem?_map ..).trans (congrArg (Option.map _) h)
    · exact chains_moved (s := { s with activeUsers := s.activeUsers - 1 }) h (by simp) (by simp)

theorem chains_finishShutdown {s : Scheduler} {t : Nat} {b : Bool} (h : s.threads[t]? = some (.joins b)) :
    chains (s.finishShutdown t) = chains s := by
  unfold finishShutdown
  split
  · rfl
  · refine (chains_moved (p := .joins b) ?_ (by simp) (by simp)).trans (chains_notifyStop _)
    exact (Notifies.get (fun p => notifies_stop.joins p b) s t).mpr h

/-- **Waits are begun by `startup` alone, and end only when the scheduler does not run.** -/
theorem chains_step {s s' : Scheduler} {e : Event} (h : s.step e = some s') :
    chains s' + (s.dies e).toNat = chains s + (s.begins e).toNat := by
  unfold Scheduler.step at h
  split at h
  · cases h
  cases e with
  | enter t =>
    simp only at h
    split at h
    · rename_i c ht
      simp only [Option.ite_none_left_eq_some, Bool.not_eq_true, Option.some.injEq] at h
      obtain ⟨_, rfl⟩ := h
      exact chains_enter ht
    · cases h
  | wake t =>
    simp only at h
    split at h
    · rename_i b ht
      simp only [Option.ite_none_left_eq_some, Option.some.injEq] at h
      obtain ⟨_, rfl⟩ := h
      exact chains_awaitUsers ht (by simp)
    · rename_i b ht
      simp only [Option.ite_none_left_eq_some, Option.some.injEq] at h
      obtain ⟨_, rfl⟩ := h
      exact chains_awaitStop ht (by simp)
    · cases h
  | joined t =>
    simp only at h
    split at h
    · rename_i b ht
      simp only [Option.ite_none_right_eq_some, Option.some.injEq] at h
      obtain ⟨_, rfl⟩ := h
      exact chains_finishShutdown ht
    · cases h
  | callback t i =>
    simp only [Option.ite_none_right_eq_some, Option.some.injEq] at h
    obtain ⟨⟨ht, _, hi⟩, rfl⟩ := h
    have hcount := callbacks_moved (s := { s with timer := s.timer.take i }) ht .keepsRunning
    have hwaits := (WaitTimer.waits_take (List.getElem?_eq_getElem hi)).length_eq
    rw [List.length_cons] at hwaits
    rw [if_neg (by simp), if_pos rfl] at hcount
    show (s.timer.take i).waits.length + _ = s.timer.waits.length + _
    have hsame : callbacks { s with timer := s.timer.take i } = callbacks s := rfl
    omega
  | keepRunning t =>
    simp only [Option.ite_none_right_eq_some, Option.some.injEq] at h
    obtain ⟨ht, rfl⟩ := h
    unfold Scheduler.keepRunning Scheduler.dies
    split
    · rename_i hrun
      have hcount := callbacks_moved (s := { s with timer := s.timer.setTo () }) ht .runs
      have hwaits := (WaitTimer.waits_setTo s.timer ()).length_eq
      rw [List.length_cons] at hwaits
      rw [if_pos rfl, if_neg (by simp)] at hcount
      have hsame : callbacks { s with timer := s.timer.setTo () } = callbacks s := rfl
      have hdies : (!s.running).toNat = 0 := by rw [hrun]; rfl
      show (s.timer.setTo ()).waits.length + _ + (!s.running).toNat = s.timer.waits.length + callbacks s
      omega
    · rename_i hrun
      have hcount := callbacks_moved ht .runs
      rw [if_pos rfl, if_neg (by simp)] at hcount
      have hdies : (!s.running).toNat = 1 := by rw [Bool.eq_false_iff.mpr hrun]; rfl
      show s.timer.waits.length + _ + (!s.running).toNat = s.timer.waits.length + callbacks s
      omega
  | expire =>
    simp only [Option.ite_none_left_eq_some, Option.some.injEq] at h
    obtain ⟨_, rfl⟩ := h
    exact congrArg (· + callbacks s) (WaitTimer.waits_expire s.timer).length_eq
  | test t =>
    simp only [Option.ite_none_right_eq_some, Option.some.injEq] at h
    obtain ⟨ht, rfl⟩ := h
    exact chains_moved ht (by simp) (by split <;> simp)
  | leave t | handle t =>
    simp only [Option.ite_none_right_eq_some, Option.some.injEq] at h
    obtain ⟨⟨ht, _⟩, rfl⟩ := h
    exact chains_moved ht (by simp) (by simp)
  | returns t throws =>
    simp only [Option.ite_none_right_eq_some, Option.some.injEq] at h
    obtain ⟨⟨_, ht⟩, rfl⟩ := h
    exact chains_moved ht (by simp) (by split <;> simp)
  | call t c =>
    simp only [Option.ite_none_right_eq_some, Option.some.injEq] at h
    obtain ⟨ht, rfl⟩ := h
    exact chains_moved ht (by simp) (by simp)

/-- At most one wait is in front of its expiry. -/
theorem armed_step {s s' : Scheduler} {e : Event} (h : s.step e = some s') (hs : s.timer.armed.length ≤ 1) :
    s'.timer.armed.length ≤ 1 := by
  cases threadStep_of_step h with
  | starts ht hq hfree hrun =>
    rw [startup_eq hrun]
    exact le_rfl
  | rearms => exact le_rfl
  | expires => exact Nat.zero_le 1
  | passes | callback | dies | adds | removes | removesLast | stops | finishes | terminates => exact hs

/-- A scheduler that runs has a chain. -/
theorem chains_running_step {s s' : Scheduler} {e : Event} (h : s.step e = some s')
    (hs : s.running = true → 1 ≤ chains s) (hup : s'.running = true) : 1 ≤ chains s' := by
  by_cases hrun : s.running = true
  · have hdies : s.dies e = false := by
      cases e <;> simp [Scheduler.dies, hrun]
    have hlaw := chains_step h
    rw [hdies] at hlaw
    exact (hs hrun).trans ((Nat.le_add_right _ _).trans hlaw.symm.le)
  · cases threadStep_of_step h with
    | starts ht hq hfree hdown =>
      rw [chains_moved (startup_place ht) (by simp) (by rcases hq with rfl | ⟨c', rfl⟩ <;> simp),
        chains_startup, hdown]
      exact Nat.le_add_left 1 _
    | stops => cases hup
    | passes | callback | rearms | dies | expires | adds | removes | removesLast | finishes | terminates =>
      exact absurd hup hrun

/-- How many chains have been begun, and how many have ended. -/
def noteChains (s : Scheduler) (e : Event) (n : Nat × Nat) : Nat × Nat :=
  (n.1 + (s.begins e).toNat, n.2 + (s.dies e).toNat)

/--
**A scheduler that is started again is never idle.** In every run there are as many waits on the
timer as sections have started the scheduler, up to the callbacks that have found it stopped; while
it runs there is one at least, so that the service is not out of work. But at most one of them waits
for its expiry: if there are two or more, a callback is ready to run, or one runs, in every
state until the scheduler is shut down.
-/
theorem idle_once_begun (n clients : Nat) (es : List Event) (s : Scheduler) (begun ended : Nat)
    (h : exec (tracked Scheduler.step noteChains) (.initial n clients, 0, 0) es = some (s, begun, ended)) :
    chains s + ended = begun ∧ (s.running = true → ended < begun) ∧ s.timer.armed.length ≤ 1 ∧
      (s.running = true → Idle s → begun = ended + 1) := by
  have hstart : chains (.initial n clients) = 0 := by
    have hnone : (Scheduler.initial n clients).threads.count .keepsRunning = 0 := by
      refine List.count_eq_zero.mpr fun hmem => ?_
      cases (List.mem_replicate.mp hmem).2
    exact (Nat.zero_add _).trans hnone
  have hinv : (chains s + ended = begun ∧ s.timer.armed.length ≤ 1) ∧ (s.running = true → 1 ≤ chains s) := by
    refine exec_invariant (fun _ (u : Scheduler × Nat × Nat) =>
      (chains u.1 + u.2.2 = u.2.1 ∧ u.1.timer.armed.length ≤ 1) ∧ (u.1.running = true → 1 ≤ chains u.1))
      ?_ ?_ h
    · exact ⟨⟨hstart, Nat.zero_le 1⟩, fun hup => by cases hup⟩
    · rintro _ ⟨u, b, d⟩ e ⟨u', b', d'⟩ _ ⟨⟨hlaw, harmed⟩, hup⟩ hstep
      obtain ⟨hstep, hnote⟩ := tracked_eq_some.mp hstep
      obtain ⟨rfl, rfl⟩ := Prod.mk.inj hnote
      refine ⟨⟨?_, armed_step hstep harmed⟩, chains_running_step hstep hup⟩
      have hchains := chains_step hstep
      dsimp only at hlaw hchains ⊢
      omega
  obtain ⟨⟨hlaw, harmed⟩, hup⟩ := hinv
  refine ⟨hlaw, ?_, harmed, ?_⟩
  · intro hrun
    have hpos := hup hrun
    omega
  · rintro hrun ⟨hready, hnone⟩
    have hpos := hup hrun
    have hwaits : s.timer.waits.length = s.timer.armed.length := by
      unfold WaitTimer.waits
      rw [hready, List.map_nil, List.append_nil]
    unfold chains at hlaw hpos
    omega

/-- A scheduler with one thread is started, shut down and started again. -/
def restart : List Event :=
  [.call 0 .startup, .enter 0, .call 0 .shutdown, .enter 0, .test 1, .joined 0, .call 0 .startup, .enter 0]

theorem idle_once_begun_restart : ∃ s,
    exec (tracked Scheduler.step noteChains) (.initial 1 1, 0, 0) restart = some (s, 2, 0) ∧
      s.running = true ∧ s.timer.armed.length ≤ 1 ∧ ¬ Idle s := by
  obtain ⟨-, -, harmed, hidle⟩ := idle_once_begun 1 1 restart _ 2 0 rfl
  refine ⟨_, rfl, rfl, harmed, fun h => ?_⟩
  cases hidle rfl h

end Pion.Proof
