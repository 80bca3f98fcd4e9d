import Pion.Proof.Scheduler

/-!
# Waiting in the scheduler

Two conditions are waited for: that there are no active users, and that the scheduler has stopped.
A thread that has not been notified waits for something that has not happened.

And `shutdown` waits for the threads of the pool with the mutex held. Each of them ends on its own,
unless it is about to take the mutex itself: then neither ever goes on.
-/

namespace Pion.Proof

open Pion Lib Scheduler

/-! ## Wakeups -/

/-- What is waited for has not happened yet. -/
structure Awaited (s : Scheduler) : Prop where
  users : ∀ t : Nat, s.threads[t]? = some (.waitsForUsers false) → s.activeUsers ≠ 0
  stop : ∀ t : Nat, s.threads[t]? = some (.waitsForStop false) → s.running = true ∨ s.locked = true

theorem Awaited.moved {s : Scheduler} (hs : Awaited s) {t : Nat} {p q : SchedulerPlace} (h : Passes s t p q) :
    Awaited (s.moved t q) := by
  have hget := moved_threads h.at_start q
  constructor
  · intro k hk
    rw [hget] at hk
    split at hk
    · exact h.users (Option.some.inj hk)
    · exact hs.users k hk
  · intro k hk
    rw [hget] at hk
    split at hk
    · exact .inl (h.stop (Option.some.inj hk))
    · rw [locked_moved h.at_start h.from_joins h.to_joins]
      exact hs.stop k hk

theorem Awaited.timed {s : Scheduler} (hs : Awaited s) (w : WaitTimer Unit) : Awaited { s with timer := w } :=
  ⟨hs.users, hs.stop⟩

theorem Awaited.counted {s : Scheduler} (hs : Awaited s) {n : UInt32} (hn : n ≠ 0) :
    Awaited { s with activeUsers := n } := ⟨fun _ _ => hn, hs.stop⟩

/-- The notified threads do not wait without having been notified. -/
theorem not_waits_notified {l : List SchedulerPlace} {f : SchedulerPlace → SchedulerPlace} {q : SchedulerPlace}
    (hf : ∀ p, f p ≠ q) (k : Nat) : (l.map f)[k]? ≠ some q := by
  rw [List.getElem?_map]
  intro h
  obtain ⟨p, _, hp⟩ := Option.map_eq_some_iff.mp h
  exact hf p hp

theorem set_of_ne {l : List SchedulerPlace} {t : Nat} {p q : SchedulerPlace} (hne : p ≠ q) {k : Nat}
    (h : (l.set t p)[k]? = some q) : l[k]? = some q := by
  rw [List.getElem?_set] at h
  split at h
  · split at h
    · exact absurd (Option.some.inj h) hne
    · cases h
  · exact h

/-- Adding a user makes no number of them zero, up to the largest. -/
theorem users_add_one {n : UInt32} (h : n.toNat + 1 < 2 ^ 32) : n + 1 ≠ 0 := by
  intro hzero
  have hnat := congrArg UInt32.toNat hzero
  rw [UInt32.toNat_add, UInt32.toNat_zero, UInt32.toNat_one, Nat.mod_eq_of_lt h] at hnat
  cases hnat

theorem Awaited.step {s s' : Scheduler} {e : Event} (hs : Awaited s)
    (hfew : s.activeUsers.toNat + 1 < 2 ^ 32) (h : s.step e = some s') : Awaited s' := by
  cases threadStep_of_step h with
  | passes hp | dies hp => exact hs.moved hp
  | callback hp | rearms hp => exact (hs.timed _).moved (hp.timed _)
  | expires => exact hs.timed _
  | starts ht hq hfree hrun =>
    have hold : ∀ {k : Nat} {b : SchedulerPlace}, b ≠ .tests → s.startup.threads[k]? = some b →
        s.threads[k]? = some b := by
      intro k b hb hk
      exact (startup_threads hrun hk).elim id fun hnew => absurd hnew.1 hb
    have hstarted : Awaited s.startup := by
      constructor
      · intro k hk
        rw [activeUsers_startup]
        exact hs.users k (hold (by simp) hk)
      · intro k _
        rw [startup_eq hrun]
        exact .inl rfl
    exact hstarted.moved (passes_of_locks (startup_threads_old hrun ht) (locked_startup hrun hfree) hq)
  | adds ht hfree =>
    refine (hs.counted (users_add_one hfew)).moved (passes_of_locks (c := .addActiveUser false) ?_ ?_ (.inl rfl))
    · exact ht
    · exact hfree
  | removes ht hfree hlast =>
    refine (hs.counted hlast).moved (passes_of_locks (c := .removeActiveUser) ?_ ?_ (.inl rfl))
    · exact ht
    · exact hfree
  | removesLast ht hfree hlast =>
    constructor
    · intro k hk
      exact absurd (set_of_ne (by simp) hk) (not_waits_notified (fun p => by cases p <;> simp
        [SchedulerPlace.notifyUsers]) k)
    · intro k hk
      have hold : s.threads[k]? = some (.waitsForStop false) := by
        refine (Notifies.get (f := SchedulerPlace.notifyUsers) ?_ s k).mp (set_of_ne (by simp) hk)
        exact fun p => by cases p <;> simp [SchedulerPlace.notifyUsers]
      exact .inl ((hs.stop k hold).elim id fun hlocked => by rw [hfree] at hlocked; cases hlocked)
  | stops b ht hp hfree husers hrun =>
    constructor
    · intro k hk
      exact hs.users k (set_of_ne (by simp) hk)
    · intro k _
      exact .inr (locked_iff.mpr ⟨_, b, (moved_threads (s := s.stopService) ht _ _).trans (if_pos rfl)⟩)
  | finishes ht hjoined hpool =>
    constructor
    · intro k hk
      refine hs.users k ((Notifies.get (f := SchedulerPlace.notifyStop) ?_ s k).mp (set_of_ne (by simp) hk))
      exact fun p => by cases p <;> simp [SchedulerPlace.notifyStop]
    · intro k hk
      exact absurd (set_of_ne (by simp) hk) (not_waits_notified (fun p => by cases p <;> simp
        [SchedulerPlace.notifyStop]) k)
  | terminates => exact ⟨hs.users, hs.stop⟩

/--
**No wakeup is lost.** As long as the number of users stays below the largest one, so that it does not
wrap around, in every state of every run a thread in `shutdown` that has not been notified waits because there are users, and one in
`join` because the scheduler runs, or is just being stopped by a thread that will notify it.
-/
theorem wakeups_not_lost (n clients : Nat) (es : List Event) (s : Scheduler)
    (h : exec Scheduler.step (.initial n clients) es = some s)
    (hfew : Throughout Scheduler.step (fun u _ => u.activeUsers.toNat + 1 < 2 ^ 32) (.initial n clients) es) :
    (∀ t : Nat, s.threads[t]? = some (.waitsForUsers false) → s.activeUsers ≠ 0) ∧
    (∀ t : Nat, s.threads[t]? = some (.waitsForStop false) → s.running = true ∨ s.locked = true) := by
  have hnone : ∀ (t : Nat) q, q ≠ .outside → (Scheduler.initial n clients).threads[t]? ≠ some q := by
    intro t q hq ht
    exact hq (List.mem_replicate.mp (List.mem_of_getElem? ht)).2
  have hs : Awaited s := by
    refine exec_throughout Awaited ?_ ?_ h hfew
    · exact ⟨fun t ht => absurd ht (hnone t _ (by simp)), fun t ht => absurd ht (hnone t _ (by simp))⟩
    · exact fun u e u' hu hfew hstep => hu.step hfew hstep
  exact ⟨hs.users, hs.stop⟩

/-- A thread waits in `shutdown` for the user of another one. -/
def waitsForUser : List Event :=
  [.call 0 (.addActiveUser false), .enter 0, .enter 0, .call 1 .shutdown, .enter 1]

theorem wakeups_not_lost_user : ∃ s, exec Scheduler.step (.initial 1 2) waitsForUser = some s ∧
    s.threads[1]? = some (.waitsForUsers false) ∧ s.activeUsers ≠ 0 := by
  refine ⟨_, rfl, rfl, ?_⟩
  exact (wakeups_not_lost 1 2 waitsForUser _ rfl (by decide)).1 1 rfl

/-! ## Joining -/

/-- A thread joins the pool, and either is one of it or joins one that needs the mutex. -/
structure NeverJoins (s : Scheduler) (t : Nat) : Prop where
  joins : ∃ b, s.threads[t]? = some (.joins b)
  blocked : t ∈ s.threadPool ∨ ∃ k ∈ s.threadPool, ∃ p, s.threads[k]? = some p ∧ p.needsMutex = true

/-- The mutex is held, so that neither of the two goes on. -/
theorem NeverJoins.moved {s : Scheduler} {t : Nat} (hs : NeverJoins s t) {t' : Nat} {p q : SchedulerPlace}
    (h : Passes s t' p q) : NeverJoins (s.moved t' q) t := by
  obtain ⟨b, ht⟩ := hs.joins
  have hget := moved_threads h.at_start q
  constructor
  · refine ⟨b, ?_⟩
    rw [hget, if_neg ?_, ht]
    rintro rfl
    rw [h.at_start] at ht
    have hjoins := h.from_joins
    rw [Option.some.inj ht] at hjoins
    cases hjoins
  · refine hs.blocked.imp id ?_
    rintro ⟨k, hk, r, hr, hneeds⟩
    refine ⟨k, hk, r, ?_, hneeds⟩
    rw [hget, if_neg ?_, hr]
    rintro rfl
    rw [h.at_start] at hr
    obtain rfl := Option.some.inj hr
    exact not_joins_of_free (h.free hneeds) ht

theorem NeverJoins.step {s s' : Scheduler} {e : Event} {t : Nat} (hpooled : Pooled s) (hs : NeverJoins s t)
    (h : s.step e = some s') : NeverJoins s' t := by
  obtain ⟨b, ht⟩ := hs.joins
  have timed : ∀ w, NeverJoins { s with timer := w } t := fun w => ⟨hs.joins, hs.blocked⟩
  cases threadStep_of_step h with
  | passes hp | dies hp => exact hs.moved hp
  | callback hp | rearms hp => exact (timed _).moved (hp.timed _)
  | expires => exact timed _
  | starts _ _ hfree | adds _ hfree | removes _ hfree | removesLast _ hfree | stops _ _ _ hfree =>
    exact absurd ht (not_joins_of_free hfree)
  | terminates => exact ⟨hs.joins, hs.blocked⟩
  | finishes ht' hjoined hpool =>
    obtain rfl := hpooled.once _ _ _ _ ht' ht
    rcases hs.blocked with hmem | ⟨k, hk, p, hp, hneeds⟩
    · exact absurd hmem hpool
    · have hended := hjoined k hk fun hkt => hpool (hkt ▸ hk)
      rw [hp] at hended
      rw [Option.some.inj hended] at hneeds
      cases hneeds

/-- A thread joins the pool, and none of the threads of the pool needs the mutex. -/
structure Draining (s : Scheduler) (t : Nat) : Prop where
  joins : ∃ b, s.threads[t]? = some (.joins b)
  stopped : s.stopped = true
  down : s.running = false
  alive : s.terminated = false
  away : t ∉ s.threadPool
  workers : ∀ k ∈ s.threadPool, s.clients ≤ k
  places : ∀ k ∈ s.threadPool, ∃ p, s.threads[k]? = some p ∧ (p.ofPool = true ∨ p = .outside)

/-- How far it is from a place to the end of the thread. -/
def toEnd : SchedulerPlace → Nat
  | .outside | .keepsRunning => 3
  | .runs => 2
  | .tests => 1
  | .locks _ | .waitsForUsers _ | .joins _ | .waitsForStop _ | .ended => 0

/-- A thread of the pool that has not ended comes nearer to its end. -/
theorem Draining.advances {s : Scheduler} {t : Nat} (hs : Draining s t) {k : Nat} (hk : k ∈ s.threadPool)
    {p : SchedulerPlace} (hp : s.threads[k]? = some p) (hended : p ≠ .ended) :
    ∃ e q, s.step e = some (s.moved k q) ∧ toEnd q < toEnd p ∧ (q.ofPool = true ∨ q = .outside) := by
  have hstep : ∀ e, s.step e = _ := fun e => if_neg (by rw [hs.alive]; exact Bool.false_ne_true)
  obtain ⟨r, hr, hplace⟩ := hs.places k hk
  rw [hp] at hr
  obtain rfl := Option.some.inj hr
  cases p with
  | tests =>
    refine ⟨.test k, .ended, ?_, by decide, .inl rfl⟩
    rw [hstep]
    dsimp only
    rw [if_pos hp, hs.down]
    rfl
  | runs =>
    refine ⟨.leave k, .tests, ?_, by decide, .inl rfl⟩
    rw [hstep]
    exact if_pos ⟨hp, .inl hs.stopped⟩
  | keepsRunning =>
    refine ⟨.keepRunning k, .runs, ?_, by decide, .inl rfl⟩
    rw [hstep]
    dsimp only
    rw [if_pos hp, show s.keepRunning = s from if_neg (by rw [hs.down]; exact Bool.false_ne_true)]
  | outside =>
    refine ⟨.returns k false, .runs, ?_, by decide, .inl rfl⟩
    rw [hstep]
    exact if_pos ⟨hs.workers k hk, hp⟩
  | ended => exact absurd rfl hended
  | locks | waitsForUsers | joins | waitsForStop =>
    rcases hplace with hplace | hplace <;> cases hplace

theorem Draining.moved {s : Scheduler} {t : Nat} (hs : Draining s t) {k : Nat} (hk : k ∈ s.threadPool)
    {p q : SchedulerPlace} (hp : s.threads[k]? = some p) (hq : q.ofPool = true ∨ q = .outside) :
    Draining (s.moved k q) t := by
  have hget := moved_threads hp q
  have hkt : k ≠ t := by
    rintro rfl
    exact hs.away hk
  refine ⟨?_, hs.stopped, hs.down, hs.alive, hs.away, hs.workers, ?_⟩
  · obtain ⟨b, ht⟩ := hs.joins
    exact ⟨b, by rw [hget, if_neg hkt, ht]⟩
  · intro j hj
    rw [hget]
    split
    · exact ⟨q, rfl, hq⟩
    · exact hs.places j hj

/-- A thread of the pool ends, and nothing happens to the others. -/
theorem Draining.ends {s : Scheduler} {t : Nat} (hs : Draining s t) {k : Nat} (hk : k ∈ s.threadPool)
    {p : SchedulerPlace} (hp : s.threads[k]? = some p) :
    ∃ es s', exec Scheduler.step s es = some s' ∧ Draining s' t ∧ s'.threadPool = s.threadPool ∧
      s'.threads[k]? = some .ended ∧ ∀ j, j ≠ k → s'.threads[j]? = s.threads[j]? := by
  by_cases hended : p = .ended
  · exact ⟨[], s, rfl, hs, rfl, hended ▸ hp, fun _ _ => rfl⟩
  · obtain ⟨e, q, hstep, hlt, hq⟩ := hs.advances hk hp hended
    have hget := moved_threads hp q
    obtain ⟨es, s', hrun, hs', hpool, hend, hothers⟩ :=
      (hs.moved hk hp hq).ends hk ((hget k).trans (if_pos rfl))
    refine ⟨e :: es, s', ?_, hs', hpool, hend, fun j hj => ?_⟩
    · rw [exec, hstep]
      exact hrun
    · rw [hothers j hj, hget, if_neg (Ne.symm hj)]
termination_by toEnd p

/-- One thread after the other ends. -/
theorem Draining.ends_all {t : Nat} (l : List Nat) : ∀ {s : Scheduler}, Draining s t → l ⊆ s.threadPool →
    ∃ es s', exec Scheduler.step s es = some s' ∧ Draining s' t ∧ s'.threadPool = s.threadPool ∧
      ∀ k ∈ l, s'.threads[k]? = some .ended := by
  induction l with
  | nil => exact fun {s} hs _ => ⟨[], s, rfl, hs, rfl, fun k hk => absurd hk List.not_mem_nil⟩
  | cons k l ih =>
    intro s hs hl
    obtain ⟨hk, hl⟩ := List.cons_subset.mp hl
    obtain ⟨es, u, hrun, hu, hpool, hended⟩ := ih hs hl
    obtain ⟨p, hp, _⟩ := hu.places k (hpool ▸ hk)
    obtain ⟨fs, v, hrun', hv, hpool', hend, hothers⟩ := hu.ends (hpool ▸ hk) hp
    refine ⟨es ++ fs, v, exec_trans hrun hrun', hv, hpool'.trans hpool, fun j hj => ?_⟩
    by_cases hjk : j = k
    · rw [hjk, hend]
    · rw [hothers j hjk]
      exact hended j ((List.mem_cons.mp hj).resolve_left hjk)

/-- **The pool drains.** -/
theorem Draining.drains {s : Scheduler} {t : Nat} (hs : Draining s t) :
    ∃ es s', exec Scheduler.step s es = some s' ∧ s'.threads[t]? = some .outside := by
  obtain ⟨es, u, hrun, hu, hpool, hended⟩ := hs.ends_all s.threadPool (List.Subset.refl _)
  obtain ⟨b, ht⟩ := hu.joins
  have hjoined : u.step (.joined t) = some (u.finishShutdown t) := by
    unfold Scheduler.step
    rw [if_neg (by rw [hu.alive]; exact Bool.false_ne_true)]
    dsimp only
    rw [ht]
    exact if_pos fun k hk _ => hended k (hpool ▸ hk)
  refine ⟨es ++ [.joined t], u.finishShutdown t, exec_snoc.mpr ⟨u, hrun, hjoined⟩, ?_⟩
  unfold finishShutdown
  rw [if_neg hu.away]
  refine (set_places (p := .joins b) ?_ .outside t).trans (if_pos rfl)
  exact (Notifies.get (fun p => notifies_stop.joins p b) u t).mpr ht

/--
**When `shutdown` returns.** A thread that joins the pool can come back from `shutdown` if and only
if it is none of the pool itself, and none of the pool needs the mutex: has called a function of the
scheduler and not got the mutex yet, or waits on a condition.
-/
theorem shutdown_returns_iff (n clients : Nat) (es : List Event) (s : Scheduler)
    (h : exec Scheduler.step (.initial n clients) es = some s) (hlive : s.terminated = false) (t : Nat) (b : Bool)
    (ht : s.threads[t]? = some (.joins b)) :
    (∃ es' s', exec Scheduler.step s es' = some s' ∧ s'.threads[t]? = some .outside) ↔
      t ∉ s.threadPool ∧ ∀ k ∈ s.threadPool, ∀ p, s.threads[k]? = some p → p.needsMutex = false := by
  have hpooled := pooled_of_run h
  constructor
  · rintro ⟨es', s', hrun, hout⟩
    by_contra hnot
    have hstuck : NeverJoins s t := by
      refine ⟨⟨b, ht⟩, ?_⟩
      by_contra hfree
      obtain ⟨haway, hfree⟩ := not_or.mp hfree
      refine hnot ⟨haway, fun k hk p hp => ?_⟩
      by_contra hneeds
      exact hfree ⟨k, hk, p, hp, Bool.not_eq_false _ ▸ hneeds⟩
    obtain ⟨_, hs'⟩ := exec_invariant (fun _ u => Pooled u ∧ NeverJoins u t) ⟨hpooled, hstuck⟩
      (fun _ u e u' _ hu hstep => ⟨hu.1.step hstep, hu.2.step hu.1 hstep⟩) hrun
    obtain ⟨b', ht'⟩ := hs'.joins
    rw [hout] at ht'
    cases ht'
  · rintro ⟨haway, hfree⟩
    have hdraining : Draining s t := by
      refine ⟨⟨b, ht⟩, (hpooled.stopping t b ht).1, hpooled.running_of_joins ht, hlive, haway,
        fun k hk => (hpooled.pool k hk).1, ?_⟩
      intro k hk
      obtain ⟨_, hlt⟩ := hpooled.pool k hk
      have hget := List.getElem?_eq_getElem hlt
      refine ⟨_, hget, ?_⟩
      have hneeds := hfree k hk _ hget
      cases hp : s.threads[k] with
      | outside => exact .inr rfl
      | tests | runs | keepsRunning | ended => exact .inl rfl
      | joins c =>
        rw [hp] at hget
        exact absurd (hpooled.once k t c b hget ht ▸ hk) haway
      | locks | waitsForUsers | waitsForStop =>
        rw [hp] at hneeds
        cases hneeds
    exact hdraining.drains

/-- A handler is about to remove a user when the scheduler is shut down. -/
def removesLate : List Event :=
  [.call 0 .startup, .enter 0, .test 1, .handle 1, .call 1 .removeActiveUser, .call 0 .shutdown, .enter 0]

theorem shutdown_returns_iff_late : ∃ s, exec Scheduler.step (.initial 1 1) removesLate = some s ∧
    ¬ ∃ es' s', exec Scheduler.step s es' = some s' ∧ s'.threads[0]? = some .outside := by
  refine ⟨_, rfl, fun hreturns => ?_⟩
  obtain ⟨_, hfree⟩ := (shutdown_returns_iff 1 1 removesLate _ rfl rfl 0 true rfl).mp hreturns
  cases hfree 1 (by decide) _ rfl

end Pion.Proof
