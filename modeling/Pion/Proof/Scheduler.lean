import Pion.Lib.Machine
import Pion.Scheduler

/-!
# Threads of the scheduler

Whatever threads call, the threads of the pool are those that `startup` has started, and they run as
long as there is an active user that has been counted: only `shutdown` stops them, and it does when
there is none, with the mutex held until all of them have ended.

Nobody waits for something that has happened already. But `shutdown` joins with the mutex held, and
so it never returns if one of the threads that it joins has to have the mutex.
-/

namespace Pion.Proof

open Pion Lib Scheduler

/-! ## Places -/

theorem set_places {l : List SchedulerPlace} {t : Nat} {p : SchedulerPlace} (h : l[t]? = some p)
    (q : SchedulerPlace) (k : Nat) : (l.set t q)[k]? = if t = k then some q else l[k]? := by
  obtain ⟨hlt, _⟩ := List.getElem?_eq_some_iff.mp h
  rw [List.getElem?_set, if_pos hlt]

theorem moved_threads {s : Scheduler} {t : Nat} {p : SchedulerPlace} (h : s.threads[t]? = some p)
    (q : SchedulerPlace) (k : Nat) :
    (s.moved t q).threads[k]? = if t = k then some q else s.threads[k]? := set_places h q k

theorem locked_iff {s : Scheduler} : s.locked = true ↔ ∃ (t : Nat) (b : Bool), s.threads[t]? = some (.joins b) := by
  unfold Scheduler.locked
  rw [List.any_eq_true]
  constructor
  · rintro ⟨p, hp, hjoins⟩
    obtain ⟨t, ht⟩ := List.mem_iff_getElem?.mp hp
    cases p with
    | joins b => exact ⟨t, b, ht⟩
    | outside | locks | waitsForUsers | waitsForStop | tests | runs | keepsRunning | ended => cases hjoins
  · rintro ⟨t, b, ht⟩
    exact ⟨.joins b, List.mem_of_getElem? ht, rfl⟩

theorem not_joins_of_free {s : Scheduler} (h : s.locked = false) {t : Nat} {b : Bool} :
    s.threads[t]? ≠ some (.joins b) := by
  intro ht
  rw [locked_iff.mpr ⟨t, b, ht⟩] at h
  cases h

/-! ## What a step does -/

/-- Where a thread may go while it changes nothing that others wait for. -/
structure Passes (s : Scheduler) (t : Nat) (p q : SchedulerPlace) : Prop where
  at_start : s.threads[t]? = some p
  free : p.needsMutex = true → s.locked = false
  from_joins : p.isJoins = false
  from_ended : p ≠ .ended
  to_joins : q.isJoins = false
  pool : q.ofPool = true → p.ofPool = true ∨ s.clients ≤ t
  ends : q = .ended → s.running = false
  users : q = .waitsForUsers false → s.activeUsers ≠ 0
  stop : q = .waitsForStop false → s.running = true

/-- What a step does. -/
inductive ThreadStep (s : Scheduler) : Scheduler → Prop where
  | passes {t : Nat} {p q : SchedulerPlace} (h : Passes s t p q) (hp : p ≠ .keepsRunning)
    (hq : q ≠ .keepsRunning) : ThreadStep s (s.moved t q)
  | callback {t i : Nat} (h : Passes s t .runs .keepsRunning) (hi : i < s.timer.ready.length) :
    ThreadStep s ({ s with timer := s.timer.take i }.moved t .keepsRunning)
  | rearms {t : Nat} (h : Passes s t .keepsRunning .runs) (hrun : s.running = true) :
    ThreadStep s ({ s with timer := s.timer.setTo () }.moved t .runs)
  | dies {t : Nat} (h : Passes s t .keepsRunning .runs) (hrun : s.running = false) : ThreadStep s (s.moved t .runs)
  | expires : ThreadStep s { s with timer := s.timer.expire }
  | starts {t : Nat} {c : SchedulerCall} {q : SchedulerPlace} (h : s.threads[t]? = some (.locks c))
    (hq : q = .outside ∨ ∃ c', q = .locks c') (hfree : s.locked = false) (hrun : s.running = false) :
    ThreadStep s (s.startup.moved t q)
  | adds {t : Nat} (h : s.threads[t]? = some (.locks (.addActiveUser false))) (hfree : s.locked = false) :
    ThreadStep s ({ s with activeUsers := s.activeUsers + 1 }.moved t .outside)
  | removes {t : Nat} (h : s.threads[t]? = some (.locks .removeActiveUser)) (hfree : s.locked = false)
    (hlast : s.activeUsers - 1 ≠ 0) :
    ThreadStep s ({ s with activeUsers := s.activeUsers - 1 }.moved t .outside)
  | removesLast {t : Nat} (h : s.threads[t]? = some (.locks .removeActiveUser))
    (hfree : s.locked = false) (hlast : s.activeUsers - 1 = 0) :
    ThreadStep s ({ s with activeUsers := s.activeUsers - 1 }.notifyUsers.moved t .outside)
  | stops {t : Nat} {p : SchedulerPlace} (b : Bool) (h : s.threads[t]? = some p) (hp : p.needsMutex = true)
    (hfree : s.locked = false) (husers : b = true → s.activeUsers = 0)
    (hrun : b = false → s.running = false) : ThreadStep s (s.stopService.moved t (.joins b))
  | finishes {t : Nat} {b : Bool} (h : s.threads[t]? = some (.joins b)) (hjoined : s.joined t)
    (hpool : t ∉ s.threadPool) :
    ThreadStep s (({ s with stopped := false, threadPool := [] }.notifyStop).moved t .outside)
  | terminates {t : Nat} {b : Bool} (h : s.threads[t]? = some (.joins b)) (hjoined : s.joined t)
    (hpool : t ∈ s.threadPool) : ThreadStep s { s with terminated := true }

theorem needsMutex_joins {p : SchedulerPlace} (h : p.needsMutex = true) : p.isJoins = false := by
  cases p <;> first | rfl | cases h

theorem ne_ended_of_needsMutex {p : SchedulerPlace} (h : p.needsMutex = true) : p ≠ .ended := by
  rintro rfl
  cases h

theorem ne_keepsRunning_of_needsMutex {p : SchedulerPlace} (h : p.needsMutex = true) : p ≠ .keepsRunning := by
  rintro rfl
  cases h

/-- A thread has got the mutex, and leaves it for a place that is no thread's of the pool. -/
theorem passes_of_mutex {s : Scheduler} {t : Nat} {p q : SchedulerPlace} (h : s.threads[t]? = some p)
    (hp : p.needsMutex = true) (hfree : s.locked = false) (hjoins : q.isJoins = false)
    (hpool : q.ofPool = false) (husers : q = .waitsForUsers false → s.activeUsers ≠ 0)
    (hstop : q = .waitsForStop false → s.running = true) : Passes s t p q where
  at_start := h
  free := fun _ => hfree
  from_joins := needsMutex_joins hp
  from_ended := ne_ended_of_needsMutex hp
  to_joins := hjoins
  pool := fun hq => absurd hq (Bool.eq_false_iff.mp hpool)
  ends := by
    rintro rfl
    cases hpool
  users := husers
  stop := hstop

theorem passes_of_locks {s : Scheduler} {t : Nat} {c : SchedulerCall} (h : s.threads[t]? = some (.locks c))
    (hfree : s.locked = false) {q : SchedulerPlace} (hq : q = .outside ∨ ∃ c', q = .locks c') :
    Passes s t (.locks c) q := by
  rcases hq with rfl | ⟨c', rfl⟩
  · exact passes_of_mutex h rfl hfree rfl rfl (by simp) (by simp)
  · exact passes_of_mutex h rfl hfree rfl rfl (by simp) (by simp)

theorem startup_threadStep {s : Scheduler} {t : Nat} {c : SchedulerCall} (h : s.threads[t]? = some (.locks c))
    (hfree : s.locked = false) {q : SchedulerPlace} (hq : q = .outside ∨ ∃ c', q = .locks c') :
    ThreadStep s (s.startup.moved t q) := by
  by_cases hrun : s.running = true
  · rw [show s.startup = s from if_pos hrun]
    refine .passes (passes_of_locks h hfree hq) (by simp) ?_
    rcases hq with rfl | ⟨c', rfl⟩ <;> simp
  · exact .starts h hq hfree (Bool.eq_false_iff.mpr hrun)

theorem awaitUsers_threadStep {s : Scheduler} {t : Nat} {p : SchedulerPlace} (h : s.threads[t]? = some p)
    (hp : p.needsMutex = true) (hfree : s.locked = false) : ThreadStep s (s.awaitUsers t) := by
  unfold awaitUsers
  split
  · rename_i husers
    refine .passes (passes_of_mutex h hp hfree rfl rfl ?_ (by simp)) (ne_keepsRunning_of_needsMutex hp) (by simp)
    intro _ hnone
    rw [hnone] at husers
    cases husers
  · rename_i husers
    have hnone : s.activeUsers = 0 := by
      rw [UInt32.lt_iff_toNat_lt, UInt32.toNat_zero] at husers
      exact UInt32.toNat_inj.mp (by rw [UInt32.toNat_zero]; omega)
    exact .stops true h hp hfree (fun _ => hnone) (fun hb => by cases hb)

theorem awaitStop_threadStep {s : Scheduler} {t : Nat} {p : SchedulerPlace} (h : s.threads[t]? = some p)
    (hp : p.needsMutex = true) (hfree : s.locked = false) : ThreadStep s (s.awaitStop t) := by
  unfold awaitStop
  split
  · rename_i hrun
    exact .passes (passes_of_mutex h hp hfree rfl rfl (by simp) fun _ => hrun)
      (ne_keepsRunning_of_needsMutex hp) (by simp)
  · exact .passes (passes_of_mutex h hp hfree rfl rfl (by simp) (by simp))
      (ne_keepsRunning_of_needsMutex hp) (by simp)

theorem enter_threadStep {s : Scheduler} {t : Nat} {c : SchedulerCall} (h : s.threads[t]? = some (.locks c))
    (hfree : s.locked = false) : ThreadStep s (s.enter t c) := by
  cases c with
  | startup => exact startup_threadStep h hfree (.inl rfl)
  | shutdown =>
    show ThreadStep s (if s.running then s.awaitUsers t else s.stopService.moved t (.joins false))
    split
    · exact awaitUsers_threadStep h rfl hfree
    · rename_i hrun
      exact .stops false h rfl hfree (fun hb => by cases hb) fun _ => Bool.eq_false_iff.mpr hrun
  | join => exact awaitStop_threadStep h rfl hfree
  | addActiveUser startsUp =>
    cases startsUp with
    | true => exact startup_threadStep h hfree (.inr ⟨_, rfl⟩)
    | false => exact .adds h hfree
  | removeActiveUser =>
    show ThreadStep s ((if s.activeUsers - 1 = 0 then _ else _ : Scheduler).moved t .outside)
    split
    · rename_i hlast
      exact .removesLast h hfree hlast
    · rename_i hlast
      exact .removes h hfree hlast

/-- Threads of the pool go from place to place. -/
theorem passes_in_pool {s : Scheduler} {t : Nat} {p q : SchedulerPlace} (h : s.threads[t]? = some p)
    (hp : p.needsMutex = false) (hjoins : p.isJoins = false) (hended : p ≠ .ended)
    (hfrom : p.ofPool = true ∨ s.clients ≤ t) (hq : q.needsMutex = false) (hqjoins : q.isJoins = false)
    (hends : q = .ended → s.running = false) : Passes s t p q where
  at_start := h
  free := fun hneeds => absurd hneeds (Bool.eq_false_iff.mp hp)
  from_joins := hjoins
  from_ended := hended
  to_joins := hqjoins
  pool := fun _ => hfrom
  ends := hends
  users := by
    rintro rfl
    cases hq
  stop := by
    rintro rfl
    cases hq

/-- **What a step can do.** -/
theorem threadStep_of_step {s s' : Scheduler} {e : Event} (h : s.step e = some s') : ThreadStep s s' := by
  unfold step at h
  split at h
  · cases h
  cases e with
  | call t c =>
    simp only [Option.ite_none_right_eq_some, Option.some.injEq] at h
    obtain ⟨ht, rfl⟩ := h
    exact .passes ⟨ht, by simp [SchedulerPlace.needsMutex], rfl, by simp, rfl, by simp [SchedulerPlace.ofPool],
      by simp, by simp, by simp⟩ (by simp) (by simp)
  | enter t =>
    simp only at h
    split at h
    · rename_i c ht
      simp only [Option.ite_none_left_eq_some, Bool.not_eq_true, Option.some.injEq] at h
      obtain ⟨hfree, rfl⟩ := h
      exact enter_threadStep ht hfree
    · cases h
  | wake t =>
    simp only at h
    split at h
    · rename_i b ht
      simp only [Option.ite_none_left_eq_some, Bool.not_eq_true, Option.some.injEq] at h
      obtain ⟨hfree, rfl⟩ := h
      exact awaitUsers_threadStep ht rfl hfree
    · rename_i b ht
      simp only [Option.ite_none_left_eq_some, Bool.not_eq_true, Option.some.injEq] at h
      obtain ⟨hfree, rfl⟩ := h
      exact awaitStop_threadStep ht rfl hfree
    · cases h
  | joined t =>
    simp only at h
    split at h
    · rename_i b ht
      simp only [Option.ite_none_right_eq_some, Option.some.injEq] at h
      obtain ⟨hjoined, rfl⟩ := h
      unfold finishShutdown
      split
      · rename_i hpool
        exact .terminates ht hjoined hpool
      · rename_i hpool
        exact .finishes ht hjoined hpool
    · cases h
  | test t =>
    simp only [Option.ite_none_right_eq_some, Option.some.injEq] at h
    obtain ⟨ht, rfl⟩ := h
    cases hrun : s.running with
    | true => exact .passes (passes_in_pool ht rfl rfl (by simp) (.inl rfl) rfl rfl (by simp)) (by simp) (by simp)
    | false =>
      exact .passes (passes_in_pool ht rfl rfl (by simp) (.inl rfl) rfl rfl fun _ => hrun) (by simp) (by simp)
  | leave t =>
    simp only [Option.ite_none_right_eq_some, Option.some.injEq] at h
    obtain ⟨⟨ht, _⟩, rfl⟩ := h
    exact .passes (passes_in_pool ht rfl rfl (by simp) (.inl rfl) rfl rfl (by simp)) (by simp) (by simp)
  | handle t =>
    simp only [Option.ite_none_right_eq_some, Option.some.injEq] at h
    obtain ⟨⟨ht, _⟩, rfl⟩ := h
    exact .passes (passes_in_pool ht rfl rfl (by simp) (.inl rfl) rfl rfl (by simp)) (by simp) (by simp)
  | returns t throws =>
    simp only [Option.ite_none_right_eq_some, Option.some.injEq] at h
    obtain ⟨⟨hworker, ht⟩, rfl⟩ := h
    cases throws with
    | true => exact .passes (passes_in_pool ht rfl rfl (by simp) (.inr hworker) rfl rfl (by simp)) (by simp) (by simp)
    | false =>
      exact .passes (passes_in_pool ht rfl rfl (by simp) (.inr hworker) rfl rfl (by simp)) (by simp) (by simp)
  | callback t i =>
    simp only [Option.ite_none_right_eq_some, Option.some.injEq] at h
    obtain ⟨⟨ht, _, hi⟩, rfl⟩ := h
    exact .callback (passes_in_pool ht rfl rfl (by simp) (.inl rfl) rfl rfl (by simp)) hi
  | keepRunning t =>
    simp only [Option.ite_none_right_eq_some, Option.some.injEq] at h
    obtain ⟨ht, rfl⟩ := h
    have hpass : Passes s t .keepsRunning .runs :=
      passes_in_pool ht rfl rfl (by simp) (.inl rfl) rfl rfl (by simp)
    unfold Scheduler.keepRunning
    split
    · rename_i hrun
      exact .rearms hpass hrun
    · rename_i hrun
      exact .dies hpass (Bool.eq_false_iff.mpr hrun)
  | expire =>
    simp only [Option.ite_none_left_eq_some, Option.some.injEq] at h
    obtain ⟨_, rfl⟩ := h
    exact .expires

/-! ## The pool -/

/-- The threads of the pool are those that run, and all of them run as long as the scheduler does. -/
structure Pooled (s : Scheduler) : Prop where
  clients_le : s.clients ≤ s.threads.length
  client : ∀ (t : Nat) p, s.threads[t]? = some p → p.ofPool = true → s.clients ≤ t
  pool : ∀ k ∈ s.threadPool, s.clients ≤ k ∧ k < s.threads.length
  nodup : s.threadPool.Nodup
  worker : ∀ (t : Nat) p, s.threads[t]? = some p → s.clients ≤ t → p ≠ .ended → t ∈ s.threadPool
  up : s.running = true → s.locked = false ∧ s.stopped = false ∧ s.threadPool.length = s.numThreads ∧
    ∀ k ∈ s.threadPool, s.threads[k]? ≠ some .ended
  down : s.running = false → s.locked = false → s.threadPool = []
  stopping : ∀ (t : Nat) b, s.threads[t]? = some (.joins b) → s.stopped = true ∧
    (b = true → s.activeUsers = 0) ∧ (b = false → s.threadPool = [])
  once : ∀ (t t' : Nat) b b', s.threads[t]? = some (.joins b) → s.threads[t']? = some (.joins b') → t = t'
  open_free : s.stopped = true → s.locked = true

theorem pooled_initial (n clients : Nat) : Pooled (.initial n clients) := by
  have houtside : ∀ (t : Nat) p, (Scheduler.initial n clients).threads[t]? = some p → p = .outside := by
    intro t p h
    exact (List.mem_replicate.mp (List.mem_of_getElem? h)).2
  have hlt : ∀ (t : Nat) p, (Scheduler.initial n clients).threads[t]? = some p → t < clients := by
    intro t p h
    obtain ⟨hlt, _⟩ := List.getElem?_eq_some_iff.mp h
    rwa [Scheduler.initial, List.length_replicate] at hlt
  constructor
  · exact le_of_eq (List.length_replicate ..).symm
  · intro t p h hp
    rw [houtside t p h] at hp
    cases hp
  · exact fun k hk => absurd hk List.not_mem_nil
  · exact List.nodup_nil
  · exact fun t p h ht => absurd (hlt t p h) (not_lt.mpr ht)
  · exact fun h => by cases h
  · exact fun _ _ => rfl
  · intro t b h
    cases houtside t _ h
  · intro t t' b b' h
    cases houtside t _ h
  · exact fun h => by cases h

/-- A thread that goes from place to place neither takes nor gives back the mutex. -/
theorem locked_moved {s : Scheduler} {t : Nat} {p q : SchedulerPlace} (h : s.threads[t]? = some p)
    (hp : p.isJoins = false) (hq : q.isJoins = false) : (s.moved t q).locked = s.locked := by
  rw [Bool.eq_iff_iff, locked_iff, locked_iff]
  constructor
  · rintro ⟨k, b, hk⟩
    rw [moved_threads h] at hk
    split at hk
    · obtain rfl := Option.some.inj hk
      cases hq
    · exact ⟨k, b, hk⟩
  · rintro ⟨k, b, hk⟩
    refine ⟨k, b, ?_⟩
    rw [moved_threads h, if_neg ?_, hk]
    rintro rfl
    rw [h] at hk
    obtain rfl := Option.some.inj hk
    cases hp

theorem Pooled.moved {s : Scheduler} (hs : Pooled s) {t : Nat} {p q : SchedulerPlace} (h : Passes s t p q) :
    Pooled (s.moved t q) := by
  have hget := moved_threads h.at_start q
  have hlocked := locked_moved h.at_start h.from_joins h.to_joins
  -- who joins, was joining
  have hjoins : ∀ (k : Nat) b, (s.moved t q).threads[k]? = some (.joins b) → s.threads[k]? = some (.joins b) := by
    intro k b hk
    rw [hget] at hk
    split at hk
    · obtain rfl := Option.some.inj hk
      exact absurd h.to_joins (by simp [SchedulerPlace.isJoins])
    · exact hk
  constructor
  · show s.clients ≤ (s.threads.set t q).length
    rw [List.length_set]
    exact hs.clients_le
  · intro k r hk hr
    rw [hget] at hk
    split at hk
    · rename_i he
      obtain rfl := Option.some.inj hk
      rw [← he]
      exact (h.pool hr).elim (hs.client t p h.at_start) id
    · exact hs.client k r hk hr
  · intro k hk
    show s.clients ≤ k ∧ k < (s.threads.set t q).length
    rw [List.length_set]
    exact hs.pool k hk
  · exact hs.nodup
  · intro k r hk hclient hr
    rw [hget] at hk
    split at hk
    · rename_i he
      rw [← he] at hclient ⊢
      exact hs.worker t p h.at_start hclient h.from_ended
    · exact hs.worker k r hk hclient hr
  · intro hrun
    obtain ⟨hfree, hstopped, hlen, hall⟩ := hs.up hrun
    refine ⟨hlocked.trans hfree, hstopped, hlen, ?_⟩
    intro k hk hended
    rw [hget] at hended
    split at hended
    · have hdown := h.ends (Option.some.inj hended)
      rw [show s.running = true from hrun] at hdown
      cases hdown
    · exact hall k hk hended
  · intro hrun hfree
    exact hs.down hrun (hlocked.symm.trans hfree)
  · exact fun k b hk => hs.stopping k b (hjoins k b hk)
  · exact fun k k' b b' hk hk' => hs.once k k' b b' (hjoins k b hk) (hjoins k' b' hk')
  · exact fun hstopped => hlocked.trans (hs.open_free hstopped)

/-- Threads are notified: none of them is moved. -/
structure Notifies (f : SchedulerPlace → SchedulerPlace) : Prop where
  joins : ∀ p b, f p = .joins b ↔ p = .joins b
  ofPool : ∀ p, (f p).ofPool = p.ofPool
  ended : ∀ p, f p = .ended ↔ p = .ended

theorem notifies_users : Notifies SchedulerPlace.notifyUsers where
  joins p b := by cases p <;> simp [SchedulerPlace.notifyUsers]
  ofPool p := by cases p <;> rfl
  ended p := by cases p <;> simp [SchedulerPlace.notifyUsers]

theorem notifies_stop : Notifies SchedulerPlace.notifyStop where
  joins p b := by cases p <;> simp [SchedulerPlace.notifyStop]
  ofPool p := by cases p <;> rfl
  ended p := by cases p <;> simp [SchedulerPlace.notifyStop]

theorem Notifies.get {f : SchedulerPlace → SchedulerPlace} {q : SchedulerPlace} (hq : ∀ p, f p = q ↔ p = q)
    (s : Scheduler) (t : Nat) : (s.threads.map f)[t]? = some q ↔ s.threads[t]? = some q := by
  rw [List.getElem?_map, Option.map_eq_some_iff]
  constructor
  · rintro ⟨p, hp, he⟩
    rw [hp, (hq p).mp he]
  · exact fun h => ⟨q, h, (hq q).mpr rfl⟩

theorem Notifies.locked {f : SchedulerPlace → SchedulerPlace} (hf : Notifies f) (s : Scheduler) :
    Scheduler.locked { s with threads := s.threads.map f } = s.locked := by
  rw [Bool.eq_iff_iff, locked_iff, locked_iff]
  exact exists_congr fun t => exists_congr fun b => Notifies.get (fun p => hf.joins p b) s t

theorem Pooled.notified {s : Scheduler} (hs : Pooled s) {f : SchedulerPlace → SchedulerPlace}
    (hf : Notifies f) : Pooled { s with threads := s.threads.map f } := by
  have hjoins : ∀ (t : Nat) b, (s.threads.map f)[t]? = some (.joins b) ↔ s.threads[t]? = some (.joins b) :=
    fun t b => Notifies.get (fun p => hf.joins p b) s t
  have hlocked := hf.locked s
  have hfrom : ∀ (t : Nat) p, (s.threads.map f)[t]? = some p → ∃ r, s.threads[t]? = some r ∧ f r = p := by
    intro t p h
    rwa [List.getElem?_map, Option.map_eq_some_iff] at h
  constructor
  · show s.clients ≤ (s.threads.map f).length
    rw [List.length_map]
    exact hs.clients_le
  · intro t p h hp
    obtain ⟨r, hr, rfl⟩ := hfrom t p h
    exact hs.client t r hr ((hf.ofPool r).symm.trans hp)
  · intro k hk
    show s.clients ≤ k ∧ k < (s.threads.map f).length
    rw [List.length_map]
    exact hs.pool k hk
  · exact hs.nodup
  · intro t p h hclient hp
    obtain ⟨r, hr, rfl⟩ := hfrom t p h
    exact hs.worker t r hr hclient fun he => hp ((hf.ended r).mpr he)
  · intro hrun
    obtain ⟨hfree, hstopped, hlen, hall⟩ := hs.up hrun
    refine ⟨hlocked.trans hfree, hstopped, hlen, ?_⟩
    exact fun k hk hended => hall k hk ((Notifies.get hf.ended s k).mp hended)
  · exact fun hrun hfree => hs.down hrun (hlocked.symm.trans hfree)
  · exact fun t b h => hs.stopping t b ((hjoins t b).mp h)
  · exact fun t t' b b' h h' => hs.once t t' b b' ((hjoins t b).mp h) ((hjoins t' b').mp h')
  · exact fun hstopped => hlocked.trans (hs.open_free hstopped)

theorem Passes.timed {s : Scheduler} {t : Nat} {p q : SchedulerPlace} (h : Passes s t p q)
    (w : WaitTimer Unit) : Passes { s with timer := w } t p q :=
  ⟨h.at_start, h.free, h.from_joins, h.from_ended, h.to_joins, h.pool, h.ends, h.users, h.stop⟩

theorem Pooled.timed {s : Scheduler} (hs : Pooled s) (w : WaitTimer Unit) : Pooled { s with timer := w } :=
  ⟨hs.clients_le, hs.client, hs.pool, hs.nodup, hs.worker, hs.up, hs.down, hs.stopping, hs.once, hs.open_free⟩

/-- Users are counted with the mutex held, so that nobody is in `stop_threads`. -/
theorem Pooled.counted {s : Scheduler} (hs : Pooled s) (hfree : s.locked = false) (n : UInt32) :
    Pooled { s with activeUsers := n } :=
  ⟨hs.clients_le, hs.client, hs.pool, hs.nodup, hs.worker, hs.up, hs.down,
    fun _ _ h => absurd h (not_joins_of_free hfree), hs.once, hs.open_free⟩

theorem startup_eq {s : Scheduler} (hrun : s.running = false) :
    s.startup = { s with
      running := true
      stopped := false
      timer := s.timer.setTo ()
      threads := s.threads ++ List.replicate s.numThreads .tests
      threadPool := s.threadPool ++ List.range' s.threads.length s.numThreads } := by
  unfold Scheduler.startup
  rw [if_neg (by rw [hrun]; exact Bool.false_ne_true)]
  rfl

/-- A thread was there before `startup`, or has just been started. -/
theorem startup_threads {s : Scheduler} (hrun : s.running = false) {t : Nat} {p : SchedulerPlace}
    (h : s.startup.threads[t]? = some p) :
    s.threads[t]? = some p ∨ p = .tests ∧ s.threads.length ≤ t ∧ t < s.threads.length + s.numThreads := by
  rw [startup_eq hrun] at h
  rcases Nat.lt_or_ge t s.threads.length with hlt | hge
  · exact .inl ((List.getElem?_append_left hlt).symm.trans h)
  · replace h : (List.replicate s.numThreads SchedulerPlace.tests)[t - s.threads.length]? = some p :=
      (List.getElem?_append_right hge).symm.trans h
    obtain ⟨hlt, hp⟩ := List.getElem?_eq_some_iff.mp h
    rw [List.length_replicate] at hlt
    rw [List.getElem_replicate] at hp
    exact .inr ⟨hp.symm, hge, by omega⟩

theorem startup_threads_old {s : Scheduler} (hrun : s.running = false) {t : Nat} {p : SchedulerPlace}
    (h : s.threads[t]? = some p) : s.startup.threads[t]? = some p := by
  obtain ⟨hlt, _⟩ := List.getElem?_eq_some_iff.mp h
  rw [startup_eq hrun]
  exact (List.getElem?_append_left hlt).trans h

theorem locked_startup {s : Scheduler} (hrun : s.running = false) (hfree : s.locked = false) :
    s.startup.locked = false := by
  rw [Bool.eq_false_iff]
  intro hlocked
  obtain ⟨t, b, h⟩ := locked_iff.mp hlocked
  rcases startup_threads hrun h with h | ⟨he, _⟩
  · exact not_joins_of_free hfree h
  · cases he

theorem Pooled.started {s : Scheduler} (hs : Pooled s) (hfree : s.locked = false) (hrun : s.running = false) :
    Pooled s.startup := by
  have hnone : s.threadPool = [] := hs.down hrun hfree
  have hpool : s.startup.threadPool = List.range' s.threads.length s.numThreads := by
    rw [startup_eq hrun, hnone]
    rfl
  have hclients : s.startup.clients = s.clients := by rw [startup_eq hrun]
  have hlen : s.startup.threads.length = s.threads.length + s.numThreads := by
    rw [startup_eq hrun]
    exact (List.length_append).trans (congrArg _ List.length_replicate)
  have hfree' := locked_startup hrun hfree
  have hle := hs.clients_le
  constructor
  · rw [hclients, hlen]
    omega
  · intro t p h hp
    rw [hclients]
    rcases startup_threads hrun h with h | ⟨_, hge, _⟩
    · exact hs.client t p h hp
    · exact hle.trans hge
  · intro k hk
    rw [hpool, List.mem_range'_1] at hk
    rw [hclients, hlen]
    omega
  · rw [hpool]
    exact List.nodup_range'
  · intro t p h hclient hp
    rw [hclients] at hclient
    rcases startup_threads hrun h with h | ⟨_, hge, hlt⟩
    · -- all threads of an earlier pool have ended
      have hmem := hs.worker t p h hclient hp
      rw [hnone] at hmem
      exact absurd hmem List.not_mem_nil
    · rw [hpool, List.mem_range'_1]
      exact ⟨hge, hlt⟩
  · intro _
    refine ⟨hfree', by rw [startup_eq hrun], ?_, ?_⟩
    · rw [hpool, List.length_range', startup_eq hrun]
    · intro k hk hended
      rw [hpool, List.mem_range'_1] at hk
      rcases startup_threads hrun hended with h | ⟨he, _⟩
      · obtain ⟨hlt, _⟩ := List.getElem?_eq_some_iff.mp h
        omega
      · cases he
  · intro hdown
    rw [startup_eq hrun] at hdown
    cases hdown
  · intro t b h
    exact absurd h (not_joins_of_free hfree')
  · intro t t' b b' h
    exact absurd h (not_joins_of_free hfree')
  · intro hstopped
    rw [startup_eq hrun] at hstopped
    cases hstopped

/-- `shutdown` takes the mutex and keeps it. -/
theorem Pooled.stops {s : Scheduler} (hs : Pooled s) {t : Nat} {p : SchedulerPlace} {b : Bool}
    (h : s.threads[t]? = some p) (hp : p.needsMutex = true) (hfree : s.locked = false)
    (husers : b = true → s.activeUsers = 0) (hrun : b = false → s.running = false) :
    Pooled (s.stopService.moved t (.joins b)) := by
  have hget : ∀ k : Nat, (s.stopService.moved t (.joins b)).threads[k]? =
      if t = k then some (.joins b) else s.threads[k]? := moved_threads (s := s.stopService) h (.joins b)
  have hlocked : (s.stopService.moved t (.joins b)).locked = true :=
    locked_iff.mpr ⟨t, b, (hget t).trans (if_pos rfl)⟩
  -- nobody else joins
  have honly : ∀ (k : Nat) c, (s.stopService.moved t (.joins b)).threads[k]? = some (.joins c) → k = t ∧ c = b := by
    intro k c hk
    rw [hget] at hk
    split at hk
    · rename_i he
      exact ⟨he.symm, (SchedulerPlace.joins.inj (Option.some.inj hk)).symm⟩
    · exact absurd hk (not_joins_of_free hfree)
  constructor
  · show s.clients ≤ (s.threads.set t (.joins b)).length
    rw [List.length_set]
    exact hs.clients_le
  · intro k r hk hr
    rw [hget] at hk
    split at hk
    · obtain rfl := Option.some.inj hk
      cases hr
    · exact hs.client k r hk hr
  · intro k hk
    show s.clients ≤ k ∧ k < (s.threads.set t (.joins b)).length
    rw [List.length_set]
    exact hs.pool k hk
  · exact hs.nodup
  · intro k r hk hclient hr
    rw [hget] at hk
    split at hk
    · rename_i he
      rw [← he] at hclient ⊢
      exact hs.worker t p h hclient (ne_ended_of_needsMutex hp)
    · exact hs.worker k r hk hclient hr
  · exact fun hup => by cases hup
  · intro _ hfree'
    rw [hlocked] at hfree'
    cases hfree'
  · intro k c hk
    obtain ⟨_, rfl⟩ := honly k c hk
    exact ⟨rfl, husers, fun hc => hs.down (hrun hc) hfree⟩
  · intro k k' c c' hk hk'
    exact (honly k c hk).1.trans (honly k' c' hk').1.symm
  · exact fun _ => hlocked

theorem Pooled.running_of_joins {s : Scheduler} (hs : Pooled s) {t : Nat} {b : Bool}
    (h : s.threads[t]? = some (.joins b)) : s.running = false := by
  rw [Bool.eq_false_iff]
  intro hrun
  exact not_joins_of_free (hs.up hrun).1 h

/-- Behind `stop_threads` all threads of the pool have ended, and the mutex is given back. -/
theorem Pooled.finishes {s : Scheduler} (hs : Pooled s) {t : Nat} {b : Bool}
    (h : s.threads[t]? = some (.joins b)) (hjoined : s.joined t) (hpool : t ∉ s.threadPool) :
    Pooled (({ s with stopped := false, threadPool := [] }.notifyStop).moved t .outside) := by
  have hclient : t < s.clients := by
    by_contra hge
    exact hpool (hs.worker t _ h (not_lt.mp hge) (by simp))
  have hplace : (s.threads.map SchedulerPlace.notifyStop)[t]? = some (.joins b) :=
    (Notifies.get (fun p => notifies_stop.joins p b) s t).mpr h
  have hget : ∀ k : Nat, ((s.threads.map SchedulerPlace.notifyStop).set t .outside)[k]? =
      if t = k then some .outside else (s.threads.map SchedulerPlace.notifyStop)[k]? :=
    set_places hplace .outside
  have hfrom : ∀ (k : Nat) p, ((s.threads.map SchedulerPlace.notifyStop).set t .outside)[k]? = some p →
      (k = t ∧ p = .outside) ∨ k ≠ t ∧ ∃ r, s.threads[k]? = some r ∧ r.notifyStop = p := by
    intro k p hk
    rw [hget] at hk
    split at hk
    · rename_i he
      exact .inl ⟨he.symm, (Option.some.inj hk).symm⟩
    · rename_i he
      rw [List.getElem?_map, Option.map_eq_some_iff] at hk
      exact .inr ⟨fun hkt => he hkt.symm, hk⟩
  have hfree : ∀ (k : Nat) c, ((s.threads.map SchedulerPlace.notifyStop).set t .outside)[k]? ≠
      some (.joins c) := by
    intro k c hk
    rcases hfrom k _ hk with ⟨_, he⟩ | ⟨hne, r, hr, he⟩
    · cases he
    · rw [(notifies_stop.joins r c).mp he] at hr
      exact hne (hs.once k t c b hr h)
  have hdown := hs.running_of_joins h
  constructor
  · show s.clients ≤ ((s.threads.map SchedulerPlace.notifyStop).set t .outside).length
    rw [List.length_set, List.length_map]
    exact hs.clients_le
  · intro k p hk hp
    rcases hfrom k p hk with ⟨_, rfl⟩ | ⟨_, r, hr, rfl⟩
    · cases hp
    · exact hs.client k r hr ((notifies_stop.ofPool r).symm.trans hp)
  · exact fun k hk => absurd hk List.not_mem_nil
  · exact List.nodup_nil
  · intro k p hk hclients hp
    rcases hfrom k p hk with ⟨rfl, _⟩ | ⟨hne, r, hr, rfl⟩
    · exact absurd hclient (not_lt.mpr hclients)
    · refine absurd ((notifies_stop.ended r).mpr ?_) hp
      by_contra hr'
      have hended := hjoined k (hs.worker k r hr hclients hr') hne
      rw [hr] at hended
      exact hr' (Option.some.inj hended)
  · intro hup
    rw [show s.running = true from hup] at hdown
    cases hdown
  · exact fun _ _ => rfl
  · exact fun k c hk => absurd hk (hfree k c)
  · exact fun k k' c c' hk => absurd hk (hfree k c)
  · exact fun hstopped => by cases hstopped

/-- **Every step keeps the pool.** -/
theorem Pooled.step {s s' : Scheduler} {e : Event} (hs : Pooled s) (h : s.step e = some s') : Pooled s' := by
  cases threadStep_of_step h with
  | passes hp | dies hp => exact hs.moved hp
  | callback hp | rearms hp => exact (hs.timed _).moved (hp.timed _)
  | expires => exact hs.timed _
  | starts ht hq hfree hrun =>
    exact (hs.started hfree hrun).moved
      (passes_of_locks (startup_threads_old hrun ht) (locked_startup hrun hfree) hq)
  | adds ht hfree =>
    refine (hs.counted hfree _).moved (passes_of_locks (c := .addActiveUser false) ?_ ?_ (.inl rfl))
    · exact ht
    · exact hfree
  | removes ht hfree hlast =>
    refine (hs.counted hfree _).moved (passes_of_locks (c := .removeActiveUser) ?_ ?_ (.inl rfl))
    · exact ht
    · exact hfree
  | removesLast ht hfree hlast =>
    refine ((hs.counted hfree _).notified notifies_users).moved
      (passes_of_locks (c := .removeActiveUser) ?_ ?_ (.inl rfl))
    · exact (List.getElem?_map ..).trans (congrArg (Option.map _) ht)
    · exact (notifies_users.locked _).trans hfree
  | stops b ht hp hfree husers hrun => exact hs.stops ht hp hfree husers hrun
  | finishes ht hjoined hpool => exact hs.finishes ht hjoined hpool
  | terminates ht hjoined hpool =>
    exact ⟨hs.clients_le, hs.client, hs.pool, hs.nodup, hs.worker, hs.up, hs.down, hs.stopping, hs.once,
      hs.open_free⟩

theorem pooled_of_run {n clients : Nat} {es : List Event} {s : Scheduler}
    (h : exec Scheduler.step (.initial n clients) es = some s) : Pooled s :=
  exec_invariant (fun _ => Pooled) (pooled_initial n clients) (fun _ _ _ _ _ hs he => hs.step he) h

theorem step_params {s s' : Scheduler} {e : Event} (h : s.step e = some s') :
    s'.numThreads = s.numThreads ∧ s'.clients = s.clients := by
  cases threadStep_of_step h with
  | starts ht hq hfree hrun =>
    rw [startup_eq hrun]
    exact ⟨rfl, rfl⟩
  | passes | callback | rearms | dies | expires | adds | removes | removesLast | stops | finishes |
    terminates => exact ⟨rfl, rfl⟩

theorem params_of_run {n clients : Nat} {es : List Event} {s : Scheduler}
    (h : exec Scheduler.step (.initial n clients) es = some s) : s.numThreads = n ∧ s.clients = clients := by
  refine exec_invariant (fun _ s => s.numThreads = n ∧ s.clients = clients) ⟨rfl, rfl⟩ ?_ h
  intro _ s e s' _ hs he
  obtain ⟨hn, hc⟩ := step_params he
  exact ⟨hn.trans hs.1, hc.trans hs.2⟩

/-! ## Shutting down is deferred -/

/--
**The pool is what `startup` has started.** As long as the scheduler runs, the pool is the threads
that have not ended, as many as were asked for. When it does not run and nobody is about to stop
it, there is no such thread.
-/
theorem workers_of_pool (n clients : Nat) (es : List Event) (s : Scheduler)
    (h : exec Scheduler.step (.initial n clients) es = some s) :
    (s.running = true → s.locked = false ∧ s.threadPool.Nodup ∧ s.threadPool.length = n ∧
      ∀ k, k ∈ s.threadPool ↔ clients ≤ k ∧ ∃ p, s.threads[k]? = some p ∧ p ≠ .ended) ∧
    (s.running = false → s.locked = false → s.threadPool = [] ∧
      ∀ (k : Nat) p, clients ≤ k → s.threads[k]? = some p → p = .ended) := by
  have hs := pooled_of_run h
  obtain ⟨hn, hclients⟩ := params_of_run h
  constructor
  · intro hrun
    obtain ⟨hfree, _, hlen, hall⟩ := hs.up hrun
    refine ⟨hfree, hs.nodup, hlen.trans hn, fun k => ⟨?_, ?_⟩⟩
    · intro hk
      obtain ⟨hge, hlt⟩ := hs.pool k hk
      refine ⟨hclients ▸ hge, s.threads[k], List.getElem?_eq_getElem hlt, fun he => hall k hk ?_⟩
      rw [List.getElem?_eq_getElem hlt, he]
    · rintro ⟨hge, p, hp, hended⟩
      exact hs.worker k p hp (hclients ▸ hge) hended
  · intro hrun hfree
    have hnone := hs.down hrun hfree
    refine ⟨hnone, fun k p hge hp => ?_⟩
    by_contra hended
    have hmem := hs.worker k p hp (hclients ▸ hge) hended
    rw [hnone] at hmem
    cases hmem

theorem workers_of_pool_two : ∃ s,
    exec Scheduler.step (.initial 2 1) [.call 0 .startup, .enter 0] = some s ∧ s.threadPool.length = 2 ∧
      ∀ k, k ∈ s.threadPool ↔ 1 ≤ k ∧ ∃ p, s.threads[k]? = some p ∧ p ≠ .ended := by
  refine ⟨_, rfl, ?_⟩
  exact ((workers_of_pool 2 1 [.call 0 .startup, .enter 0] _ rfl).1 rfl).2.2

/--
**Shutting down is deferred until there are no active users.** While there are threads in the pool,
the service is stopped, or one of them ends, only when no user is counted; and then the mutex is
held until all have ended, so that none can be added.
-/
theorem shutdown_deferred (n clients : Nat) (es : List Event) (s : Scheduler)
    (h : exec Scheduler.step (.initial n clients) es = some s) (hpool : s.threadPool ≠ [])
    (hstops : s.running = false ∨ s.stopped = true ∨ ∃ k ∈ s.threadPool, s.threads[k]? = some .ended) :
    s.activeUsers = 0 ∧ s.locked = true := by
  have hs := pooled_of_run h
  have hlocked : s.locked = true := by
    by_contra hfree
    rw [Bool.not_eq_true] at hfree
    have hrun : s.running = true := by
      by_contra hrun
      exact hpool (hs.down (Bool.eq_false_iff.mpr hrun) hfree)
    obtain ⟨_, hopen, _, hall⟩ := hs.up hrun
    rcases hstops with hdown | hstopped | ⟨k, hk, hended⟩
    · rw [hrun] at hdown
      cases hdown
    · rw [hopen] at hstopped
      cases hstopped
    · exact hall k hk hended
  obtain ⟨t, b, ht⟩ := locked_iff.mp hlocked
  obtain ⟨_, husers, hnone⟩ := hs.stopping t b ht
  refine ⟨husers ?_, hlocked⟩
  by_contra hb
  exact hpool (hnone (Bool.eq_false_iff.mpr hb))

theorem shutdown_deferred_empty : ∃ s,
    exec Scheduler.step (.initial 1 1) [.call 0 .startup, .enter 0, .call 0 .shutdown, .enter 0] = some s ∧
      s.activeUsers = 0 ∧ s.locked = true := by
  refine ⟨_, rfl, ?_⟩
  exact shutdown_deferred 1 1 [.call 0 .startup, .enter 0, .call 0 .shutdown, .enter 0] _ rfl (by decide) (.inl rfl)

/-! ## Users that are served -/

theorem activeUsers_startup (s : Scheduler) : s.startup.activeUsers = s.activeUsers := by
  cases hrun : s.running with
  | true => rw [show s.startup = s from if_pos hrun]
  | false => rw [startup_eq hrun]

theorem activeUsers_awaitUsers (s : Scheduler) (t : Nat) : (s.awaitUsers t).activeUsers = s.activeUsers := by
  unfold awaitUsers
  split <;> rfl

theorem activeUsers_awaitStop (s : Scheduler) (t : Nat) : (s.awaitStop t).activeUsers = s.activeUsers := by
  unfold awaitStop
  split <;> rfl

/-- What a call of `enter` counts. -/
theorem enter_users {s : Scheduler} {t : Nat} {c : SchedulerCall} (h : s.threads[t]? = some (.locks c)) :
    (s.counts (.enter t) = false ∧ (s.enter t c).activeUsers = s.activeUsers) ∨
      s.counts (.enter t) = true ∧ (s.enter t c).running = s.running ∧
        ((s.enter t c).activeUsers = s.activeUsers + 1 ∨ (s.enter t c).activeUsers = s.activeUsers - 1) := by
  dsimp only [Scheduler.counts]
  rw [h]
  cases c with
  | startup => exact .inl ⟨rfl, activeUsers_startup s⟩
  | shutdown =>
    refine .inl ⟨rfl, ?_⟩
    show (if s.running then s.awaitUsers t else s.stopService.moved t (.joins false)).activeUsers = _
    split
    · exact activeUsers_awaitUsers s t
    · rfl
  | join => exact .inl ⟨rfl, activeUsers_awaitStop s t⟩
  | addActiveUser startsUp =>
    cases startsUp with
    | true => exact .inl ⟨rfl, activeUsers_startup s⟩
    | false => exact .inr ⟨rfl, rfl, .inl rfl⟩
  | removeActiveUser =>
    refine .inr ⟨rfl, ?_⟩
    show ((if s.activeUsers - 1 = 0 then _ else _ : Scheduler).moved t .outside).running = _ ∧
      (((if s.activeUsers - 1 = 0 then _ else _ : Scheduler).moved t .outside).activeUsers = _ ∨
        ((if s.activeUsers - 1 = 0 then _ else _ : Scheduler).moved t .outside).activeUsers = _)
    split
    · exact ⟨rfl, .inr rfl⟩
    · exact ⟨rfl, .inr rfl⟩

/-- Users are counted by nothing else. -/
theorem step_users {s s' : Scheduler} {e : Event} (h : s.step e = some s') :
    (s.counts e = false ∧ s'.activeUsers = s.activeUsers) ∨
      s.counts e = true ∧ s'.running = s.running ∧
        (s'.activeUsers = s.activeUsers + 1 ∨ s'.activeUsers = s.activeUsers - 1) := by
  unfold Scheduler.step at h
  split at h
  · cases h
  cases e with
  | enter t =>
    simp only at h
    split at h
    · rename_i c ht
      simp only [Option.ite_none_left_eq_some, Bool.not_eq_true, Option.some.injEq] at h
      obtain ⟨_, rfl⟩ := h
      exact enter_users ht
    · cases h
  | wake t =>
    refine .inl ⟨rfl, ?_⟩
    simp only at h
    split at h
    · simp only [Option.ite_none_left_eq_some, Option.some.injEq] at h
      obtain ⟨_, rfl⟩ := h
      exact activeUsers_awaitUsers s t
    · simp only [Option.ite_none_left_eq_some, Option.some.injEq] at h
      obtain ⟨_, rfl⟩ := h
      exact activeUsers_awaitStop s t
    · cases h
  | joined t =>
    refine .inl ⟨rfl, ?_⟩
    simp only at h
    split at h
    · simp only [Option.ite_none_right_eq_some, Option.some.injEq] at h
      obtain ⟨_, rfl⟩ := h
      unfold finishShutdown
      split <;> rfl
    · cases h
  | keepRunning t =>
    refine .inl ⟨rfl, ?_⟩
    simp only [Option.ite_none_right_eq_some, Option.some.injEq] at h
    obtain ⟨_, rfl⟩ := h
    unfold Scheduler.keepRunning
    split <;> rfl
  | expire =>
    simp only [Option.ite_none_left_eq_some, Option.some.injEq] at h
    obtain ⟨_, rfl⟩ := h
    exact .inl ⟨rfl, rfl⟩
  | call | test | leave | handle | returns | callback =>
    simp only [Option.ite_none_right_eq_some, Option.some.injEq] at h
    obtain ⟨_, rfl⟩ := h
    exact .inl ⟨rfl, rfl⟩

/-- The scheduler runs as long as it has active users. -/
def UsersServed (s : Scheduler) : Prop := s.activeUsers ≠ 0 → s.running = true

/-- What is stopped has no active users. -/
theorem running_of_step {s s' : Scheduler} {e : Event} (h : s.step e = some s') (hrun : s.running = true) :
    s'.running = true ∨ s'.activeUsers = 0 := by
  cases threadStep_of_step h with
  | starts ht hq hfree hdown =>
    rw [hrun] at hdown
    cases hdown
  | stops b ht hp hfree husers hdown =>
    cases b with
    | true => exact .inr (husers rfl)
    | false =>
      rw [hdown rfl] at hrun
      cases hrun
  | passes | callback | rearms | dies | expires | adds | removes | removesLast | finishes | terminates =>
    exact .inl hrun

/-- A step keeps the users served unless it counts while the scheduler does not run. -/
theorem UsersServed.step {s s' : Scheduler} {e : Event} (hs : UsersServed s) (h : s.step e = some s') :
    UsersServed s' ↔ (s.counts e = true → s.running = true) := by
  rcases step_users h with ⟨hcounts, hsame⟩ | ⟨hcounts, hrun, husers⟩
  · have hserved : UsersServed s' := by
      intro hne
      rw [hsame] at hne
      rcases running_of_step h (hs hne) with hrun | hzero
      · exact hrun
      · exact absurd (hsame.symm.trans hzero) hne
    rw [hcounts]
    exact ⟨fun _ hc => absurd hc Bool.false_ne_true, fun _ => hserved⟩
  · constructor
    · intro hserved _
      by_contra hdown
      have hzero : s.activeUsers = 0 := by
        by_contra hne
        exact hdown (hs hne)
      have hnone : s'.activeUsers ≠ 0 := by
        rw [hzero] at husers
        rcases husers with husers | husers <;>
          · rw [husers]
            decide
      exact hdown (hrun.symm.trans (hserved hnone))
    · exact fun hup _ => hrun.trans (hup hcounts)

/--
**When users are served.** The scheduler runs in all states of a run in which it has active users if
and only if it runs whenever users are counted, by `add_active_user` or by `remove_active_user`. The first
looks whether it has to be started before it has the mutex, and when it counts, it may have been shut
down again; the second may take one off where there is none.
-/
theorem users_served_iff (n clients : Nat) (es : List Event) (s : Scheduler)
    (h : exec Scheduler.step (.initial n clients) es = some s) :
    (∀ front back u, es = front ++ back → exec Scheduler.step (.initial n clients) front = some u →
      UsersServed u) ↔
    Throughout Scheduler.step (fun u e => u.counts e = true → u.running = true) (.initial n clients) es := by
  have hstart : UsersServed (.initial n clients) := fun hne => absurd rfl hne
  constructor
  · intro hserved front e back u hes hu
    have hrun : exec Scheduler.step (.initial n clients) (front ++ [e] ++ back) = some s := by
      rw [List.append_assoc, List.singleton_append, ← hes]
      exact h
    rw [exec_append, Option.bind_eq_some_iff] at hrun
    obtain ⟨u', hu', _⟩ := hrun
    obtain ⟨v, hv, hstep⟩ := exec_snoc.mp hu'
    obtain rfl := Option.some.inj (hu.symm.trans hv)
    have hafter : UsersServed u' := hserved (front ++ [e]) back u' (by rw [hes, List.append_assoc]; rfl) hu'
    exact ((hserved front (e :: back) u hes hu).step hstep).mp hafter
  · intro hall front back u hes hu
    refine exec_throughout UsersServed hstart ?_ hu (throughout_append (hes ▸ hall))
    exact fun v e v' hv hcond hstep => (hv.step hstep).mpr hcond

/-- The scheduler is shut down when a user has found it running, and has not been counted yet. -/
def lateUser : List Event :=
  [.call 0 .startup, .enter 0, .call 0 (.addActiveUser false), .call 1 .shutdown, .enter 1, .test 2, .joined 1,
    .enter 0]

theorem users_served_iff_late : ∃ s, exec Scheduler.step (.initial 1 2) lateUser = some s ∧
    ¬ ∀ front back u, lateUser = front ++ back → exec Scheduler.step (.initial 1 2) front = some u →
      UsersServed u := by
  refine ⟨_, rfl, fun hserved => ?_⟩
  have hnot : ¬ Throughout Scheduler.step (fun u e => u.counts e = true → u.running = true) (.initial 1 2)
      lateUser := by decide
  exact hnot ((users_served_iff 1 2 lateUser _ rfl).mp hserved)

end Pion.Proof
