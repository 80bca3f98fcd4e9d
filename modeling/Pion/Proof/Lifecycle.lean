import Pion.Lib.Machine
import Pion.ServerLifecycle
import Mathlib.Algebra.Ring.Int.Defs
import Mathlib.Algebra.BigOperators.Group.List.Basic

/-!
# Starting and stopping

A `start` that throws leaves the acceptor as it is. Unless it was `open` itself that threw, that
is open, and no later `start` can open it again.

The scheduler counts a server as its user between `start` and `stop`. The two count in sections
of their own: a `stop` may take the user away before the `start` has added it.
-/

namespace Pion.Proof

open Pion Lib

/-! ## A start that throws -/

/-- Everything but the acceptor and its port is left alone. -/
theorem configure_frame (s : ServerState) (env : StartEnv) :
    (s.configure env).1.listening = s.listening ∧ (s.configure env).1.connPool = s.connPool ∧
      (s.configure env).1.activeUsers = s.activeUsers := by
  unfold ServerState.configure
  dsimp only
  split_ifs <;> exact ⟨rfl, rfl, rfl⟩

/-- The acceptor is open afterwards, unless it could not be opened. -/
theorem configure_acceptor (s : ServerState) (env : StartEnv) :
    (s.configure env).1.acceptorOpen = false ↔ s.acceptorOpen = false ∧ env.refuses .open = true := by
  unfold ServerState.configure
  dsimp only
  by_cases hopen : s.acceptorOpen = true ∨ env.refuses .open = true
  · rw [if_pos hopen]
    refine ⟨fun h => ⟨h, ?_⟩, fun h => h.1⟩
    exact hopen.resolve_left (by rw [h]; exact Bool.false_ne_true)
  · rw [if_neg hopen]
    refine ⟨fun h => ?_, fun h => absurd (Or.inr h.2) hopen⟩
    split_ifs at h

/-- An open acceptor cannot be opened. -/
theorem configure_open {s : ServerState} (h : s.acceptorOpen = true) (env : StartEnv) :
    s.configure env = (s, some .open) := by
  unfold ServerState.configure
  rw [if_pos (Or.inl h)]

theorem configure_closed {s : ServerState} (h : s.acceptorOpen = false) {env : StartEnv}
    (henv : ∀ step, env.refuses step = false) : (s.configure env).2 = none := by
  unfold ServerState.configure
  simp [h, henv]

/-- What a failed start should leave as it was. -/
structure LeftAlone (s s' : ServerState) : Prop where
  listening : s'.listening = s.listening
  acceptor : s'.acceptorOpen = s.acceptorOpen
  connPool : s'.connPool = s.connPool
  activeUsers : s'.activeUsers = s.activeUsers

/-- A start whose steps succeed starts the server. -/
def CanStart (s : ServerState) : Prop :=
  ∀ env k orphan, (∀ step, env.refuses step = false) →
    (s.start env k orphan).2 = .listens ∧ (s.start env k orphan).1.listening = true

theorem start_threw {s s' : ServerState} {env : StartEnv} {k : Nat} {orphan : Nat → Bool}
    {step : StartStep} (h : s.start env k orphan = (s', .threw step)) :
    s.listening = false ∧ s.configure env = (s', some step) := by
  unfold ServerState.start ServerState.startSection at h
  cases hl : s.listening with
  | true =>
    rw [hl, if_pos rfl] at h
    cases h
  | false =>
    refine ⟨rfl, ?_⟩
    rw [hl, if_neg Bool.false_ne_true] at h
    rcases hc : s.configure env with ⟨t, _ | step'⟩
    · rw [hc] at h
      cases h
    · rw [hc] at h
      obtain ⟨rfl, hstep⟩ := Prod.mk.inj h
      rw [StartResult.threw.inj hstep]

theorem canStart_iff {s : ServerState} (h : s.listening = false) : CanStart s ↔ s.acceptorOpen = false := by
  constructor
  · intro hcan
    obtain ⟨hlistens, _⟩ := hcan ⟨fun _ => false, 0⟩ 0 (fun _ => false) fun _ => rfl
    by_contra hopen
    unfold ServerState.start ServerState.startSection at hlistens
    rw [h, if_neg Bool.false_ne_true, configure_open (eq_true_of_ne_false hopen)] at hlistens
    cases hlistens
  · intro hclosed env k orphan henv
    have hc := configure_closed hclosed henv
    unfold ServerState.start ServerState.startSection
    rw [h, if_neg Bool.false_ne_true]
    rcases hs : s.configure env with ⟨t, o⟩
    rw [hs] at hc
    obtain rfl : o = none := hc
    exact ⟨rfl, rfl⟩

/--
**Which failed starts do no harm**: those in which the acceptor, closed before, could not be opened.
One that fails later leaves it open, and so the server cannot be started again.
-/
theorem failedStart_harmless_iff (s s' : ServerState) (env : StartEnv) (k : Nat) (orphan : Nat → Bool)
    (step : StartStep) (hthrows : s.start env k orphan = (s', .threw step)) :
    LeftAlone s s' ∧ CanStart s' ↔ s.acceptorOpen = false ∧ env.refuses .open = true := by
  obtain ⟨hlistening, hconfigure⟩ := start_threw hthrows
  obtain ⟨hl, hpool, husers⟩ := configure_frame s env
  have hacceptor := configure_acceptor s env
  rw [hconfigure] at hl hpool husers hacceptor
  rw [canStart_iff (hl.trans hlistening), ← hacceptor]
  constructor
  · exact fun h => h.2
  · intro hclosed
    exact ⟨⟨hl, hclosed.trans (hacceptor.mp hclosed).1.symm, hpool, husers⟩, hclosed⟩

/-- The first call of a start is refused. -/
theorem failedStart_harmless_open :
    LeftAlone { port := 80 } { port := 80 } ∧ CanStart { port := 80 } :=
  (failedStart_harmless_iff { port := 80 } { port := 80 } ⟨fun step => step = .open, 0⟩ 1 (fun _ => false)
    .open rfl).mpr ⟨rfl, rfl⟩

/-- Another server has the port. -/
def portTaken : StartEnv := ⟨fun step => step = .bind, 0⟩

/-- The port is taken; the server cannot be started when it is free again. -/
theorem failedStart_harmful : ∃ s', ({ port := 80 } : ServerState).start portTaken 1 (fun _ => false) =
    (s', .threw .bind) ∧ ¬ (LeftAlone { port := 80 } s' ∧ CanStart s') := by
  refine ⟨_, rfl, fun h => ?_⟩
  have hclosed := (canStart_iff rfl).mp h.2
  cases hclosed

/-! ## The scheduler's users -/

section threads

/-- What a thread will do to the number of users, the other way round: a start on its way has still
to add one, a stop that waits has still to take one away. -/
def owed : Place → Int
  | .outside => 0
  | .listens | .adds | .counts => -1
  | .waits => 1

/-- The users that there should be: one for a server that listens, and one for each stop that
waits, less those that starts on their way have not added. -/
def due (w : ServerThreads) : Int :=
  (if w.server.listening then 1 else 0) + (w.threads.map owed).sum

theorem sum_map_set {l : List Place} {t : Nat} {p : Place} (h : l[t]? = some p) (q : Place) :
    ((l.set t q).map owed).sum = (l.map owed).sum + (owed q - owed p) := by
  induction l generalizing t with
  | nil => cases h
  | cons a l ih =>
    cases t with
    | zero =>
      obtain rfl := Option.some.inj h
      rw [List.set_cons_zero, List.map_cons, List.map_cons, List.sum_cons, List.sum_cons]
      omega
    | succ t =>
      rw [List.set_cons_succ, List.map_cons, List.map_cons, List.sum_cons, List.sum_cons,
        ih (t := t) h]
      omega

theorem due_moved {w : ServerThreads} {t : Nat} {p : Place} (h : w.threads[t]? = some p) (q : Place)
    (s : ServerState) : due (w.moved t q s) = due w + (owed q - owed p) +
      ((if s.listening then 1 else 0) - (if w.server.listening then 1 else 0)) := by
  unfold due ServerThreads.moved
  dsimp only
  rw [sum_map_set h]
  omega

/-! ### What a step does to the users -/

/-- The step is one in which `stop` calls `remove_active_user`. -/
def removes (w : ServerThreads) : ServerThreads.Event → Bool
  | .stop t orphan => w.threads[t]? = some .outside && w.server.listening &&
      (w.server.closeAcceptor.drain orphan).2
  | .wake t orphan => w.threads[t]? = some .waits && (w.server.drain orphan).2
  | _ => false

/-- The step is one in which `start` adds a user. -/
def adds (w : ServerThreads) : ServerThreads.Event → Bool
  | .addActiveUser t => w.threads[t]? = some .counts
  | _ => false

/-- The users, there and due, before a step and behind it. -/
inductive StepCounts (w w' : ServerThreads) (e : ServerThreads.Event) : Prop
  | removed (hr : removes w e = true) (ha : adds w e = false)
      (hu : w'.server.activeUsers = w.server.activeUsers - 1) (hd : due w' = due w - 1)
  | added (hr : removes w e = false) (ha : adds w e = true)
      (hu : w'.server.activeUsers = w.server.activeUsers + 1) (hd : due w' = due w + 1)
  | kept (hr : removes w e = false) (ha : adds w e = false)
      (hu : w'.server.activeUsers = w.server.activeUsers) (hd : due w' = due w)

theorem startSection_spec (s : ServerState) (env : StartEnv) :
    (s.startSection env).1.activeUsers = s.activeUsers ∧
      ((s.startSection env).2 = .listens → s.listening = false ∧ (s.startSection env).1.listening = true) ∧
      ((s.startSection env).2 ≠ .listens → (s.startSection env).1.listening = s.listening) := by
  obtain ⟨hl, _, hu⟩ := configure_frame s env
  unfold ServerState.startSection
  cases hlist : s.listening with
  | true => simp [hlist]
  | false =>
    rw [if_neg Bool.false_ne_true]
    rcases hc : s.configure env with ⟨t, _ | step⟩
    · rw [hc] at hu
      exact ⟨hu, fun _ => ⟨rfl, rfl⟩, fun h => absurd rfl h⟩
    · rw [hc] at hl hu
      exact ⟨hu, fun h => (by cases h), fun _ => hl.trans hlist⟩

theorem listen_spec (s : ServerState) (k : Nat) (orphan : Nat → Bool) :
    (s.listen k orphan).activeUsers = s.activeUsers ∧ (s.listen k orphan).listening = s.listening := by
  unfold ServerState.listen
  split <;> exact ⟨rfl, rfl⟩

theorem drain_spec (s : ServerState) (orphan : Nat → Bool) :
    (s.drain orphan).1.listening = s.listening ∧
      ((s.drain orphan).2 = true → (s.drain orphan).1.activeUsers = s.activeUsers - 1) ∧
      ((s.drain orphan).2 = false → (s.drain orphan).1.activeUsers = s.activeUsers) := by
  unfold ServerState.drain
  dsimp only
  split_ifs
  · exact ⟨rfl, fun _ => rfl, fun h => by cases h⟩
  · exact ⟨rfl, fun _ => rfl, fun h => by cases h⟩
  · exact ⟨rfl, fun h => (by cases h), fun _ => rfl⟩

/-- The loop of `stop`, run by a thread that waits or comes from outside. -/
theorem drain_counted {w : ServerThreads} {t : Nat} {p : Place} {s : ServerState} {e : ServerThreads.Event}
    (orphan : Nat → Bool) (ht : w.threads[t]? = some p) (hu : s.activeUsers = w.server.activeUsers)
    (hd : 1 - owed p + ((if s.listening then 1 else 0) - (if w.server.listening then 1 else 0)) = 0)
    (hr : removes w e = (s.drain orphan).2) (ha : adds w e = false) :
    StepCounts w (w.moved t (ServerThreads.afterDrain (s.drain orphan).2) (s.drain orphan).1) e := by
  obtain ⟨hl, hdone, hwaits⟩ := drain_spec s orphan
  have hdue := due_moved ht (ServerThreads.afterDrain (s.drain orphan).2) (s.drain orphan).1
  rw [hl] at hdue
  cases hb : (s.drain orphan).2 with
  | true =>
    rw [hb] at hr hdue
    refine .removed hr ha ((hdone hb).trans (by rw [hu])) ?_
    rw [hdue, show owed (ServerThreads.afterDrain true) = 0 from rfl]
    omega
  | false =>
    rw [hb] at hr hdue
    refine .kept hr ha ((hwaits hb).trans hu) ?_
    rw [hdue, show owed (ServerThreads.afterDrain false) = 1 from rfl]
    omega

/-- A step of the server alone. -/
theorem server_counted {w : ServerThreads} {s : ServerState} {e : ServerThreads.Event}
    (hl : s.listening = w.server.listening) (hu : s.activeUsers = w.server.activeUsers)
    (hr : removes w e = false) (ha : adds w e = false) : StepCounts w { w with server := s } e := by
  refine .kept hr ha hu ?_
  unfold due
  dsimp only
  rw [hl]

/-- The first section of `start`. -/
theorem start_counted {w w' : ServerThreads} {t : Nat} {env : StartEnv}
    (h : w.step (.start t env) = some w') : StepCounts w w' (.start t env) := by
  dsimp only [ServerThreads.step] at h
  obtain ⟨ht, h⟩ := Option.ite_none_right_eq_some.mp h
  obtain ⟨hu, hlistens, hother⟩ := startSection_spec w.server env
  rcases hs : w.server.startSection env with ⟨s, r⟩
  rw [hs] at h hu hlistens hother
  have hkept : r ≠ .listens → StepCounts w (w.moved t .outside s) (.start t env) := by
    intro hr
    refine .kept rfl rfl hu ?_
    rw [due_moved ht, hother hr]
    omega
  cases r with
  | listens =>
    obtain rfl := Option.some.inj h
    obtain ⟨hwas, his⟩ := hlistens rfl
    refine .kept rfl rfl hu ?_
    rw [due_moved ht, his, hwas]
    show due w + (-1 - 0) + (1 - 0) = due w
    omega
  | already =>
    obtain rfl := Option.some.inj h
    exact hkept fun h => by cases h
  | threw step =>
    obtain rfl := Option.some.inj h
    exact hkept fun h => by cases h

/-- The section of `stop`, as far as its first wait. -/
theorem stop_counted {w w' : ServerThreads} {t : Nat} {orphan : Nat → Bool}
    (h : w.step (.stop t orphan) = some w') : StepCounts w w' (.stop t orphan) := by
  dsimp only [ServerThreads.step] at h
  obtain ⟨ht, h⟩ := Option.ite_none_right_eq_some.mp h
  cases hl : w.server.listening with
  | true =>
    rw [hl, if_pos rfl] at h
    obtain rfl := Option.some.inj h
    refine drain_counted orphan ht rfl ?_ ?_ rfl
    · rw [hl]
      rfl
    · dsimp only [removes]
      rw [hl, decide_eq_true ht]
      rfl
  | false =>
    rw [hl, if_neg Bool.false_ne_true] at h
    obtain rfl := Option.some.inj h
    refine .kept ?_ rfl rfl rfl
    dsimp only [removes]
    rw [hl, Bool.and_false, Bool.false_and]

/-- **Every step keeps the books.** -/
theorem step_counted {w w' : ServerThreads} {e : ServerThreads.Event} (h : w.step e = some w') :
    StepCounts w w' e := by
  cases e with
  | start t env => exact start_counted h
  | listen t k orphan =>
    dsimp only [ServerThreads.step] at h
    obtain ⟨ht, h⟩ := Option.ite_none_right_eq_some.mp h
    obtain rfl := Option.some.inj h
    obtain ⟨hu, hl⟩ := listen_spec w.server k orphan
    refine .kept rfl rfl hu ?_
    rw [due_moved ht, hl]
    show due w + 0 + _ = due w
    omega
  | startup t =>
    dsimp only [ServerThreads.step] at h
    obtain ⟨ht, h⟩ := Option.ite_none_right_eq_some.mp h
    obtain rfl := Option.some.inj h
    have hserver : ∀ s, s = (if w.server.running then w.server else w.server.startup) →
        s.activeUsers = w.server.activeUsers ∧ s.listening = w.server.listening := by
      rintro s rfl
      split <;> exact ⟨rfl, rfl⟩
    obtain ⟨hu, hl⟩ := hserver _ rfl
    refine .kept rfl rfl hu ?_
    rw [due_moved ht, hl]
    show due w + 0 + _ = due w
    omega
  | addActiveUser t =>
    dsimp only [ServerThreads.step] at h
    obtain ⟨ht, h⟩ := Option.ite_none_right_eq_some.mp h
    obtain rfl := Option.some.inj h
    refine .added rfl (decide_eq_true ht) rfl ?_
    rw [due_moved ht]
    show due w + 1 + (_ - _) = due w + 1
    rw [show w.server.addActiveUser.listening = w.server.listening from rfl]
    omega
  | stop t orphan => exact stop_counted h
  | wake t orphan =>
    dsimp only [ServerThreads.step] at h
    obtain ⟨ht, h⟩ := Option.ite_none_right_eq_some.mp h
    obtain rfl := Option.some.inj h
    refine drain_counted orphan ht rfl ?_ ?_ rfl
    · show 1 - 1 + (_ - _) = (0 : Int)
      omega
    · dsimp only [removes]
      rw [decide_eq_true ht]
      rfl
  | accept k orphan =>
    obtain rfl := Option.some.inj h
    obtain ⟨hu, hl⟩ := listen_spec w.server k orphan
    exact server_counted hl hu rfl rfl
  | finish k =>
    obtain rfl := Option.some.inj h
    exact server_counted rfl rfl rfl rfl
  | shutdown =>
    dsimp only [ServerThreads.step] at h
    obtain ⟨s, hs, rfl⟩ := Option.map_eq_some_iff.mp h
    unfold ServerState.shutdown at hs
    split at hs
    · cases hs
    · obtain rfl := Option.some.inj hs
      exact server_counted rfl rfl rfl rfl

/-! ### Runs -/

/-- The step takes the number of users below zero, or past the largest. -/
def Wraps (w : ServerThreads) (e : ServerThreads.Event) : Prop :=
  (removes w e = true ∧ w.server.activeUsers = 0) ∨ (adds w e = true ∧ w.server.activeUsers + 1 = 0)

/-- A user that is taken away has been added; and there is room for one that is added. -/
def AddedFirst (w : ServerThreads) (e : ServerThreads.Event) : Prop :=
  (removes w e = true → 0 < due w) ∧ (adds w e = true → due w + 1 < 2 ^ 32)

/-- The number of users is the one that is due. -/
def Exact (w : ServerThreads) : Prop := (w.server.activeUsers.toNat : Int) = due w

/-- The number of users is the one that is due, as far as its 32 bits tell. -/
def ExactMod (w : ServerThreads) : Prop := (w.server.activeUsers.toNat : Int) = due w % 2 ^ 32

theorem toNat_pred (u : UInt32) : (u - 1).toNat = (u.toNat + (2 ^ 32 - 1)) % 2 ^ 32 := by
  rw [UInt32.toNat_sub, UInt32.toNat_one]
  omega

theorem toNat_succ (u : UInt32) : (u + 1).toNat = (u.toNat + 1) % 2 ^ 32 := by
  rw [UInt32.toNat_add, UInt32.toNat_one]

theorem ExactMod.step {w w' : ServerThreads} {e : ServerThreads.Event} (h : ExactMod w)
    (hstep : w.step e = some w') : ExactMod w' := by
  unfold ExactMod at h ⊢
  cases step_counted hstep with
  | removed _ _ hu hd =>
    rw [hu, hd, toNat_pred, Int.natCast_mod, Int.natCast_add, h]
    omega
  | added _ _ hu hd =>
    rw [hu, hd, toNat_succ, Int.natCast_mod, Int.natCast_add, h]
    omega
  | kept _ _ hu hd => rw [hu, hd, h]

theorem Exact.step {w w' : ServerThreads} {e : ServerThreads.Event} (h : Exact w)
    (hadded : AddedFirst w e) (hstep : w.step e = some w') : Exact w' := by
  unfold Exact at h ⊢
  cases step_counted hstep with
  | removed hr _ hu hd =>
    have hpos := hadded.1 hr
    have hlt := w.server.activeUsers.toNat_lt
    rw [hu, hd, toNat_pred]
    omega
  | added _ ha hu hd =>
    have hroom := hadded.2 ha
    rw [hu, hd, toNat_succ]
    omega
  | kept _ _ hu hd => rw [hu, hd, h]

/-- As long as the number is exact, it tells whether it can be counted on. -/
theorem Exact.wraps_iff {w : ServerThreads} (h : Exact w) (e : ServerThreads.Event) :
    ¬ Wraps w e ↔ AddedFirst w e := by
  have hzero : w.server.activeUsers = 0 ↔ ¬ 0 < due w := by
    rw [← UInt32.toNat_inj, UInt32.toNat_zero, ← h]
    omega
  have hmax : w.server.activeUsers + 1 = 0 ↔ ¬ due w + 1 < 2 ^ 32 := by
    have hlt := w.server.activeUsers.toNat_lt
    rw [← UInt32.toNat_inj, toNat_succ, UInt32.toNat_zero, ← h]
    omega
  unfold Wraps AddedFirst
  rw [hzero, hmax]
  tauto

theorem due_initial (port : UInt16) (n : Nat) : due (.initial port n) = 0 := by
  unfold due ServerThreads.initial
  have hall : ∀ k ∈ (List.replicate n Place.outside).map owed, k = 0 := by
    intro k hk
    obtain ⟨p, hp, rfl⟩ := List.mem_map.mp hk
    rw [List.eq_of_mem_replicate hp]
    rfl
  rw [List.sum_eq_zero hall]
  rfl

/-- All threads have come back from their calls. -/
def AllOutside (w : ServerThreads) : Prop := ∀ p ∈ w.threads, p = .outside

theorem AllOutside.due {w : ServerThreads} (h : AllOutside w) :
    due w = if w.server.listening then 1 else 0 := by
  have hsum : (w.threads.map owed).sum = 0 := by
    refine List.sum_eq_zero fun k hk => ?_
    obtain ⟨p, hp, rfl⟩ := List.mem_map.mp hk
    rw [h p hp]
    rfl
  unfold Pion.Proof.due
  rw [hsum, add_zero]

/-- The users are counted as they should be in a run. -/
structure CountsUsers (w₀ : ServerThreads) (es : List ServerThreads.Event) : Prop where
  never_wraps : Throughout ServerThreads.step (fun w e => ¬ Wraps w e) w₀ es
  settled : ∀ front back w, es = front ++ back → exec ServerThreads.step w₀ front = some w →
    AllOutside w → w.server.activeUsers = if w.server.listening then 1 else 0

/-- **Behind all calls the number is right**, whatever it has been in between. -/
theorem settled_activeUsers {port : UInt16} {n : Nat} {es : List ServerThreads.Event} {w : ServerThreads}
    (hrun : exec ServerThreads.step (.initial port n) es = some w) (houtside : AllOutside w) :
    w.server.activeUsers = if w.server.listening then 1 else 0 := by
  have hstart : ExactMod (.initial port n) := by
    unfold ExactMod
    rw [due_initial]
    rfl
  have hexact := exec_invariant (fun _ w => ExactMod w) hstart
    (fun _ s e s' _ hs hstep => hs.step hstep) hrun
  unfold ExactMod at hexact
  rw [houtside.due] at hexact
  rw [← UInt32.toNat_inj]
  cases hl : w.server.listening with
  | true =>
    rw [hl] at hexact
    exact Int.ofNat.inj hexact
  | false =>
    rw [hl] at hexact
    exact Int.ofNat.inj hexact

/--
**When the users are counted as they should be**: in the runs in which `stop` takes a user away
only while one is due, that is, not before the `start` that has set `listening` has added it, and
in which there is room for each that is added.
-/
theorem countsUsers_iff (port : UInt16) (n : Nat) (es : List ServerThreads.Event) :
    CountsUsers (.initial port n) es ↔ Throughout ServerThreads.step AddedFirst (.initial port n) es := by
  have hstart : Exact (.initial port n) := by
    unfold Exact
    rw [due_initial]
    rfl
  constructor
  · intro h front e back w hes hw
    -- the events in front keep the number exact
    have hexact : Exact w := exec_throughout (P := fun w e => ¬ Wraps w e) Exact hstart
      (fun s e s' hs hnot hstep => hs.step ((hs.wraps_iff e).mp hnot) hstep) hw
      (throughout_append (hes ▸ h.never_wraps))
    exact (hexact.wraps_iff e).mp (h.never_wraps front e back w hes hw)
  · intro h
    refine ⟨?_, fun front back w _ hw houtside => settled_activeUsers hw houtside⟩
    intro front e back w hes hw
    have hexact : Exact w := exec_throughout (P := AddedFirst) Exact hstart
      (fun s e s' hs hadded hstep => hs.step hadded hstep) hw (throughout_append (hes ▸ h))
    exact (hexact.wraps_iff e).mpr (h front e back w hes hw)

/-- A `stop` between the two sections of a `start`. -/
theorem countsUsers_underflow :
    ¬ CountsUsers (.initial 80 2) [.start 0 ⟨fun _ => false, 0⟩, .stop 1 fun _ => false] := by
  intro h
  exact h.never_wraps [.start 0 ⟨fun _ => false, 0⟩] _ [] _ rfl rfl (Or.inl ⟨rfl, rfl⟩)

end threads

end Pion.Proof
