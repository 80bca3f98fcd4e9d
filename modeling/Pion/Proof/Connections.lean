import Pion.ServerConnections
import Pion.Proof.Lifecycle

/-!
# Connections of a server

The pool holds just the connections that have not been closed, however their handlers run in between
the calls of `start` and `stop`. A server that listens has a connection for its acceptor, or is
about to make one; a `stop` leaves it to its connections that none takes its place.
-/

namespace Pion.Proof

open Pion Lib ServerConns

/-! ## The server -/

theorem startSection_connPool (s : ServerState) (env : StartEnv) :
    (s.startSection env).1.connPool = s.connPool := by
  obtain ⟨_, hpool, _⟩ := configure_frame s env
  unfold ServerState.startSection
  split
  · rfl
  · split <;> rename_i hc <;> rw [hc] at hpool <;> exact hpool

theorem drain_connPool (s : ServerState) (orphan : Nat → Bool) :
    (s.drain orphan).1.connPool = s.connPool.filter fun k => !orphan k := by
  unfold ServerState.drain
  dsimp only
  split_ifs with hempty
  · show s.connPool = _
    rw [hempty]
    rfl
  · rfl
  · rfl

theorem drain_done (s : ServerState) (orphan : Nat → Bool) :
    (s.drain orphan).2 = true ↔ (s.drain orphan).1.connPool = [] := by
  unfold ServerState.drain
  dsimp only
  split_ifs with hempty hpruned
  · exact ⟨fun _ => hempty, fun _ => rfl⟩
  · exact ⟨fun _ => hpruned, fun _ => rfl⟩
  · exact ⟨fun h => (by cases h), fun h => absurd h hpruned⟩

/-! ## Threads -/

/-- How many threads are about to call `listen` in `start`. -/
def listeners (w : ServerThreads) : Nat := w.threads.countP (· = .listens)

theorem moved_place {w : ServerThreads} {t : Nat} {p : Place} (h : w.threads[t]? = some p) (q : Place)
    (s : ServerState) (k : Nat) : (w.moved t q s).threads[k]? = if t = k then some q else w.threads[k]? := by
  obtain ⟨hlt, _⟩ := List.getElem?_eq_some_iff.mp h
  show (w.threads.set t q)[k]? = _
  rw [List.getElem?_set, if_pos hlt]

/-- A count, with one element set. -/
theorem countP_set_add {α : Type} {P : α → Bool} {l : List α} {k : Nat} {a : α} (h : l[k]? = some a) (b : α) :
    (l.set k b).countP P + (P a).toNat = l.countP P + (P b).toNat := by
  obtain ⟨hlt, rfl⟩ := List.getElem?_eq_some_iff.mp h
  rw [List.countP_set hlt]
  cases ha : P l[k] with
  | true =>
    have hpos : 0 < l.countP P := List.countP_pos_iff.mpr ⟨_, List.getElem_mem hlt, ha⟩
    cases P b <;> simp <;> omega
  | false => cases P b <;> simp

theorem listeners_moved {w : ServerThreads} {t : Nat} {p : Place} (h : w.threads[t]? = some p) (q : Place)
    (s : ServerState) :
    listeners (w.moved t q s) + (decide (p = .listens)).toNat =
      listeners w + (decide (q = .listens)).toNat := countP_set_add h q

theorem waits_moved {w : ServerThreads} {t : Nat} {p : Place} (h : w.threads[t]? = some p) (hp : p ≠ .waits)
    (q : Place) (s : ServerState) (k : Nat) (hk : w.threads[k]? = some .waits) :
    (w.moved t q s).threads[k]? = some .waits := by
  rw [moved_place h, if_neg ?_, hk]
  rintro rfl
  rw [h] at hk
  exact hp (Option.some.inj hk)

/-! ## What a step does -/

/-- The threads that wait in `stop` still do. -/
def KeepWaiting (w w' : ServerThreads) : Prop :=
  ∀ t : Nat, w.threads[t]? = some .waits → w'.threads[t]? = some .waits

/-- What a step does. -/
inductive ConnStep (w : ServerConns) (e : ServerConns.Event) : ServerConns → Prop where
  | passes {ts : ServerThreads} (hl : ts.server.listening = w.threads.server.listening)
    (hpool : ts.server.connPool = w.threads.server.connPool) (hlisteners : listeners ts = listeners w.threads)
    (hwaits : KeepWaiting w.threads ts) : ConnStep w e { w with threads := ts }
  | begins {ts : ServerThreads} {t : Nat} {env : StartEnv} (he : e = .start t env)
    (hwas : w.threads.server.listening = false) (his : ts.server.listening = true)
    (hpool : ts.server.connPool = w.threads.server.connPool)
    (hlisteners : listeners ts = listeners w.threads + 1) (hwaits : KeepWaiting w.threads ts) :
    ConnStep w e { w with threads := ts }
  | listens {ts : ServerThreads} (hserver : ts.server = w.threads.server.listen w.conns.length w.orphan)
    (hlisteners : listeners ts + 1 = listeners w.threads) (hwaits : KeepWaiting w.threads ts) :
    ConnStep w e { w with threads := ts, conns := w.afterListen }
  | drains {ts : ServerThreads} (hl : ts.server.listening = true → w.threads.server.listening = true)
    (hpool : ts.server.connPool = w.threads.server.connPool.filter fun k => !w.orphan k)
    (hlisteners : listeners ts = listeners w.threads)
    (hwaits : ts.server.connPool ≠ [] →
      KeepWaiting w.threads ts ∧ ∃ t : Nat, ts.threads[t]? = some .waits) :
    ConnStep w e { w with threads := ts, conns := w.afterDrain }
  | moves {k : Nat} {p q : ConnPlace} (h : w.conns[k]? = some p) (hp : p ≠ .closed) (hq : q ≠ .closed)
    (haccepts : q.accepts = p.accepts) : ConnStep w e (w.setConn k q)
  | leaves {k : Nat} {p q : ConnPlace} (h : w.conns[k]? = some p) (hp : p.accepts = true)
    (hq : q.accepts = false) (hclosed : q ≠ .closed) (hl : w.threads.server.listening = false) :
    ConnStep w e (w.setConn k q)
  | listensNext {k : Nat} {p q : ConnPlace} {ts : ServerThreads} (h : w.conns[k]? = some p)
    (hp : p.accepts = true) (hq : q.accepts = false) (hclosed : q ≠ .closed)
    (hserver : ts.server = w.threads.server.listen w.conns.length w.orphan)
    (hthreads : ts.threads = w.threads.threads) :
    ConnStep w e ({ w with threads := ts, conns := w.afterListen }.setConn k q)
  | closes {k : Nat} {p : ConnPlace} {ts : ServerThreads} (h : w.conns[k]? = some p)
    (hp : p.accepts = false) (hl : ts.server.listening = w.threads.server.listening)
    (hpool : ts.server.connPool = w.threads.server.connPool.filter (· ≠ k))
    (hthreads : ts.threads = w.threads.threads) :
    ConnStep w e ({ w with threads := ts }.setConn k .closed)

theorem afterAccept_spec (ssl ok : Bool) :
    (ConnPlace.afterAccept ssl ok).accepts = false ∧ ConnPlace.afterAccept ssl ok ≠ .closed := by
  cases ssl <;> cases ok <;> exact ⟨rfl, by decide⟩

/-- The first section of `start`. -/
theorem start_connStep {w : ServerConns} {t : Nat} {env : StartEnv} {ts : ServerThreads}
    (h : w.threads.step (.start t env) = some ts) : ConnStep w (.start t env) { w with threads := ts } := by
  dsimp only [ServerThreads.step] at h
  obtain ⟨ht, h⟩ := Option.ite_none_right_eq_some.mp h
  obtain ⟨_, hlistens, hother⟩ := startSection_spec w.threads.server env
  have hpool := startSection_connPool w.threads.server env
  rcases hs : w.threads.server.startSection env with ⟨s, r⟩
  rw [hs] at h hlistens hother hpool
  have hmanaged : r ≠ .listens → ConnStep w (.start t env) { w with threads := w.threads.moved t .outside s } := fun hr =>
    .passes (hother hr) hpool (listeners_moved ht .outside s) (waits_moved ht (by simp) .outside s)
  cases r with
  | listens =>
    obtain rfl := Option.some.inj h
    obtain ⟨hwas, his⟩ := hlistens rfl
    exact .begins rfl hwas his hpool (listeners_moved ht .listens s) (waits_moved ht (by simp) .listens s)
  | already =>
    obtain rfl := Option.some.inj h
    exact hmanaged (by simp)
  | threw step =>
    obtain rfl := Option.some.inj h
    exact hmanaged (by simp)

/-- The loop of `stop`, run by a thread that waits or comes from outside. -/
theorem drain_connStep {w : ServerConns} {e : ServerConns.Event} {t : Nat} {p : Place} {s : ServerState}
    (ht : w.threads.threads[t]? = some p) (hp : p ≠ .listens)
    (hpool : s.connPool = w.threads.server.connPool)
    (hl : s.listening = true → w.threads.server.listening = true) :
    ConnStep w e { w with
      threads := w.threads.moved t (ServerThreads.afterDrain (s.drain w.orphan).2) (s.drain w.orphan).1
      conns := w.afterDrain } := by
  have hpool' : (s.drain w.orphan).1.connPool = w.threads.server.connPool.filter fun k => !w.orphan k := by
    rw [drain_connPool, hpool]
  have hdone := drain_done s w.orphan
  refine .drains (fun h => hl ((drain_spec s w.orphan).1.symm.trans h)) hpool' ?_ ?_
  · have hmoved := listeners_moved ht (ServerThreads.afterDrain (s.drain w.orphan).2) (s.drain w.orphan).1
    rw [decide_eq_false hp] at hmoved
    cases hb : (s.drain w.orphan).2 <;> rw [hb] at hmoved <;> exact hmoved
  · intro hrest
    have hwaits : (s.drain w.orphan).2 = false := Bool.eq_false_iff.mpr fun h => hrest (hdone.mp h)
    rw [hwaits]
    have hat := moved_place ht .waits (s.drain w.orphan).1
    refine ⟨fun k hk => ?_, t, ?_⟩
    · show (w.threads.moved t .waits _).threads[k]? = _
      rw [hat]
      split
      · rfl
      · exact hk
    · show (w.threads.moved t .waits _).threads[t]? = _
      rw [hat, if_pos rfl]

/-- **What a step can do.** -/
theorem connStep_of_step {w w' : ServerConns} {e : ServerConns.Event} (h : w.step e = some w') : ConnStep w e w' := by
  cases e with
  | start t env =>
    obtain ⟨ts, hts, rfl⟩ := Option.map_eq_some_iff.mp h
    exact start_connStep hts
  | listen t =>
    obtain ⟨ts, hts, rfl⟩ := Option.map_eq_some_iff.mp h
    dsimp only [ServerThreads.step] at hts
    obtain ⟨ht, hts⟩ := Option.ite_none_right_eq_some.mp hts
    obtain rfl := Option.some.inj hts
    exact .listens rfl (listeners_moved ht .adds _) (waits_moved ht (by simp) .adds _)
  | startup t =>
    obtain ⟨ts, hts, rfl⟩ := Option.map_eq_some_iff.mp h
    dsimp only [ServerThreads.step] at hts
    obtain ⟨ht, hts⟩ := Option.ite_none_right_eq_some.mp hts
    obtain rfl := Option.some.inj hts
    refine .passes ?_ ?_ (listeners_moved ht .counts _) (waits_moved ht (by simp) .counts _)
    · show ServerState.listening (if _ then _ else _) = _
      split <;> rfl
    · show ServerState.connPool (if _ then _ else _) = _
      split <;> rfl
  | addActiveUser t =>
    obtain ⟨ts, hts, rfl⟩ := Option.map_eq_some_iff.mp h
    dsimp only [ServerThreads.step] at hts
    obtain ⟨ht, hts⟩ := Option.ite_none_right_eq_some.mp hts
    obtain rfl := Option.some.inj hts
    exact .passes rfl rfl (listeners_moved ht .outside _) (waits_moved ht (by simp) .outside _)
  | stop t =>
    obtain ⟨ts, hts, rfl⟩ := Option.map_eq_some_iff.mp h
    dsimp only [ServerThreads.step] at hts
    obtain ⟨ht, hts⟩ := Option.ite_none_right_eq_some.mp hts
    cases hl : w.threads.server.listening with
    | true =>
      rw [hl, if_pos rfl] at hts
      obtain rfl := Option.some.inj hts
      exact drain_connStep (s := w.threads.server.closeAcceptor) ht (by simp) rfl fun _ => hl
    | false =>
      rw [hl, if_neg Bool.false_ne_true] at hts
      obtain rfl := Option.some.inj hts
      exact .passes rfl rfl rfl fun _ hk => hk
  | wake t =>
    obtain ⟨ts, hts, rfl⟩ := Option.map_eq_some_iff.mp h
    dsimp only [ServerThreads.step] at hts
    obtain ⟨ht, hts⟩ := Option.ite_none_right_eq_some.mp hts
    obtain rfl := Option.some.inj hts
    exact drain_connStep ht (by simp) rfl id
  | shutdown =>
    obtain ⟨ts, hts, rfl⟩ := Option.map_eq_some_iff.mp h
    dsimp only [ServerThreads.step] at hts
    obtain ⟨s, hs, rfl⟩ := Option.map_eq_some_iff.mp hts
    unfold ServerState.shutdown at hs
    split at hs
    · cases hs
    · obtain rfl := Option.some.inj hs
      exact .passes rfl rfl rfl fun _ hk => hk
  | accept k ok =>
    obtain ⟨hk, h⟩ := Option.ite_none_right_eq_some.mp h
    obtain rfl := Option.some.inj h
    exact .moves hk (by simp) (by simp) rfl
  | look k =>
    dsimp only [ServerConns.step] at h
    split at h
    · rename_i ok hk
      obtain rfl := Option.some.inj h
      cases hl : w.threads.server.listening with
      | true => exact .moves hk (by simp) (by simp) rfl
      | false => exact .leaves hk rfl (afterAccept_spec _ ok).1 (afterAccept_spec _ ok).2 hl
    · cases h
  | listenNext k =>
    dsimp only [ServerConns.step] at h
    split at h
    · rename_i ok hk
      obtain ⟨ts, hts, rfl⟩ := Option.map_eq_some_iff.mp h
      obtain rfl := Option.some.inj hts
      exact .listensNext hk rfl (afterAccept_spec _ ok).1 (afterAccept_spec _ ok).2 rfl rfl
    · cases h
  | handshake k ok =>
    obtain ⟨hk, h⟩ := Option.ite_none_right_eq_some.mp h
    obtain rfl := Option.some.inj h
    cases ok <;> exact .moves hk (by simp) (by simp) rfl
  | finish k keepAlive =>
    obtain ⟨hk, h⟩ := Option.ite_none_right_eq_some.mp h
    obtain rfl := Option.some.inj h
    exact .moves hk (by simp) (by simp) rfl
  | drop k =>
    obtain ⟨hk, h⟩ := Option.ite_none_right_eq_some.mp h
    obtain rfl := Option.some.inj h
    exact .moves hk (by simp) (by simp) rfl
  | finishConnection k =>
    dsimp only [ServerConns.step] at h
    split at h
    · rename_i keepAlive hk
      split at h
      · obtain rfl := Option.some.inj h
        exact .moves hk (by simp) (by simp) rfl
      · obtain ⟨ts, hts, rfl⟩ := Option.map_eq_some_iff.mp h
        obtain rfl := Option.some.inj hts
        exact .closes hk rfl rfl rfl rfl
    · cases h

/-! ## The pool -/

/-- The pool holds each connection that is not closed, once. -/
structure Managed (w : ServerConns) : Prop where
  nodup : w.threads.server.connPool.Nodup
  pool : ∀ k, k ∈ w.threads.server.connPool ↔ ∃ p, w.conns[k]? = some p ∧ p ≠ .closed

theorem managed_initial (port : UInt16) (n : Nat) (ssl : Bool) : Managed (.initial port n ssl) where
  nodup := List.nodup_nil
  pool k := by
    constructor
    · exact fun h => absurd h List.not_mem_nil
    · rintro ⟨p, hp, _⟩
      cases hp

theorem pruned_closed {p : ConnPlace} : p.pruned ≠ .closed ↔ p ≠ .closed ∧ p ≠ .dropped := by
  cases p <;> simp [ConnPlace.pruned]

/-- What is left by `prune_connections`. -/
theorem Managed.mem_pruned {w : ServerConns} (h : Managed w) (k : Nat) :
    k ∈ (w.threads.server.connPool.filter fun k => !w.orphan k) ↔
      ∃ p, (w.conns.map ConnPlace.pruned)[k]? = some p ∧ p ≠ .closed := by
  rw [List.mem_filter, h.pool k, List.getElem?_map]
  cases hk : w.conns[k]? with
  | none => simp
  | some p => simp [ServerConns.orphan, hk, pruned_closed]

/-- Where there is nothing to prune, nothing is dropped. -/
theorem Managed.afterDrain {w : ServerConns} (h : Managed w) : w.afterDrain = w.conns.map ConnPlace.pruned := by
  unfold ServerConns.afterDrain
  split
  · rename_i hempty
    refine List.ext_getElem? fun k => ?_
    rw [List.getElem?_map]
    cases hk : w.conns[k]? with
    | none => rfl
    | some p =>
      have hclosed : p = .closed := by
        by_contra hp
        have hmem := (h.pool k).mpr ⟨p, hk, hp⟩
        rw [hempty] at hmem
        cases hmem
      rw [hclosed]
      rfl
  · rfl

theorem Managed.setConn {w : ServerConns} (h : Managed w) {k : Nat} {p q : ConnPlace} (hk : w.conns[k]? = some p)
    (hp : p ≠ .closed) (hq : q ≠ .closed) : Managed (w.setConn k q) where
  nodup := h.nodup
  pool n := by
    obtain ⟨hlt, _⟩ := List.getElem?_eq_some_iff.mp hk
    show n ∈ w.threads.server.connPool ↔ ∃ r, (w.conns.set k q)[n]? = some r ∧ r ≠ .closed
    rw [h.pool n, List.getElem?_set, if_pos hlt]
    split
    · rename_i he
      subst he
      exact ⟨fun _ => ⟨q, rfl, hq⟩, fun _ => ⟨p, hk, hp⟩⟩
    · rfl

/-- `listen` makes a connection, if the server listens. -/
theorem Managed.listen {w : ServerConns} (h : Managed w) {ts : ServerThreads}
    (hserver : ts.server = w.threads.server.listen w.conns.length w.orphan) :
    Managed { w with threads := ts, conns := w.afterListen } := by
  unfold ServerState.listen at hserver
  unfold ServerConns.afterListen
  split at hserver
  · rename_i hl
    rw [if_pos hl]
    have hpool : ts.server.connPool =
        w.conns.length :: w.threads.server.connPool.filter fun k => !w.orphan k := by rw [hserver]; rfl
    have hnew : w.conns.length ∉ w.threads.server.connPool.filter fun k => !w.orphan k := by
      intro hmem
      obtain ⟨p, hp, _⟩ := (h.mem_pruned _).mp hmem
      rw [List.getElem?_eq_none (by rw [List.length_map])] at hp
      cases hp
    refine ⟨?_, fun k => ?_⟩
    · show ts.server.connPool.Nodup
      rw [hpool]
      exact List.nodup_cons.mpr ⟨hnew, h.nodup.filter _⟩
    · show k ∈ ts.server.connPool ↔
        ∃ p, (w.conns.map ConnPlace.pruned ++ [ConnPlace.accepting])[k]? = some p ∧ p ≠ .closed
      rw [hpool, List.mem_cons, h.mem_pruned]
      rcases lt_trichotomy k w.conns.length with hlt | rfl | hgt
      · rw [List.getElem?_append_left (by rwa [List.length_map])]
        exact or_iff_right (Nat.ne_of_lt hlt)
      · rw [List.getElem?_append_right (by rw [List.length_map]), List.length_map, Nat.sub_self]
        exact ⟨fun _ => ⟨_, rfl, by simp⟩, fun _ => .inl rfl⟩
      · rw [List.getElem?_eq_none (by rw [List.length_map]; omega),
          List.getElem?_eq_none (by rw [List.length_append, List.length_map, List.length_singleton]; omega)]
        exact or_iff_right (Nat.ne_of_gt hgt)
  · rename_i hl
    rw [if_neg hl]
    refine ⟨?_, fun k => ?_⟩
    · show ts.server.connPool.Nodup
      rw [hserver]
      exact h.nodup
    · show k ∈ ts.server.connPool ↔ _
      rw [hserver]
      exact h.pool k

theorem pruned_eq {p : ConnPlace} (h : p ≠ .dropped) : p.pruned = p := by
  cases p <;> first | rfl | exact absurd rfl h

/-- A connection that is not dropped has its place still behind `listen`. -/
theorem afterListen_get {w : ServerConns} {k : Nat} {p : ConnPlace} (h : w.conns[k]? = some p)
    (hp : p ≠ .dropped) : w.afterListen[k]? = some p := by
  unfold ServerConns.afterListen
  split
  · obtain ⟨hlt, _⟩ := List.getElem?_eq_some_iff.mp h
    rw [List.getElem?_append_left (by rwa [List.length_map]), List.getElem?_map, h]
    exact congrArg some (pruned_eq hp)
  · exact h

theorem ne_of_accepts {p : ConnPlace} (h : p.accepts = true) : p ≠ .dropped ∧ p ≠ .closed := by
  constructor <;> rintro rfl <;> cases h

theorem Managed.step {w w' : ServerConns} {e : ServerConns.Event} (h : Managed w) (hstep : ConnStep w e w') : Managed w' := by
  have hsame : ∀ {ts : ServerThreads}, ts.server.connPool = w.threads.server.connPool →
      Managed { w with threads := ts } := by
    intro ts hpool
    refine ⟨?_, fun k => ?_⟩
    · show ts.server.connPool.Nodup
      rw [hpool]
      exact h.nodup
    · show k ∈ ts.server.connPool ↔ _
      rw [hpool]
      exact h.pool k
  cases hstep with
  | passes _ hpool _ _ => exact hsame hpool
  | begins _ _ _ hpool _ _ => exact hsame hpool
  | listens hserver _ _ => exact h.listen hserver
  | drains _ hpool _ _ =>
    rw [h.afterDrain]
    refine ⟨?_, fun k => ?_⟩
    · show List.Nodup (ServerState.connPool _)
      rw [hpool]
      exact h.nodup.filter _
    · show k ∈ ServerState.connPool _ ↔ _
      rw [hpool]
      exact h.mem_pruned k
  | moves hk hp hq _ => exact h.setConn hk hp hq
  | leaves hk hp _ hq _ => exact h.setConn hk (ne_of_accepts hp).2 hq
  | listensNext hk hp _ hq hserver _ =>
    exact (h.listen hserver).setConn (afterListen_get hk (ne_of_accepts hp).1) (ne_of_accepts hp).2 hq
  | @closes k p ts hk _ _ hpool _ =>
    obtain ⟨hlt, _⟩ := List.getElem?_eq_some_iff.mp hk
    refine ⟨?_, fun n => ?_⟩
    · show List.Nodup ts.server.connPool
      rw [hpool]
      exact h.nodup.filter _
    · show n ∈ ts.server.connPool ↔ ∃ r, (w.conns.set k .closed)[n]? = some r ∧ r ≠ .closed
      rw [hpool, List.mem_filter, h.pool n, List.getElem?_set, if_pos hlt]
      split
      · rename_i he
        subst he
        simp
      · rename_i hne
        simp [Ne.symm hne]

theorem managed_of_run {port : UInt16} {n : Nat} {ssl : Bool} {es : List ServerConns.Event} {w : ServerConns}
    (h : exec ServerConns.step (.initial port n ssl) es = some w) : Managed w :=
  exec_invariant (fun _ w => Managed w) (managed_initial port n ssl)
    (fun _ _ _ _ _ hs hstep => hs.step (connStep_of_step hstep)) h

/-! ## The acceptor -/

/-- What becomes of the connections for the acceptor. -/
inductive AcceptStep (w : ServerConns) (e : ServerConns.Event) (w' : ServerConns) : Prop
  | begins {t : Nat} {env : StartEnv} (he : e = .start t env) (hwas : w.threads.server.listening = false) (his : w'.threads.server.listening = true)
      (hn : w'.acceptors = w.acceptors + 1)
  | keeps (hl : w'.threads.server.listening = true → w.threads.server.listening = true)
      (hn : w'.acceptors = w.acceptors)
  | leaves (hl : w'.threads.server.listening = false) (hn : w'.acceptors + 1 = w.acceptors)

theorem countP_pruned (l : List ConnPlace) :
    (l.map ConnPlace.pruned).countP ConnPlace.accepts = l.countP ConnPlace.accepts := by
  rw [List.countP_map]
  refine List.countP_congr fun p _ => ?_
  cases p <;> simp [ConnPlace.pruned, ConnPlace.accepts]

theorem countP_afterDrain (w : ServerConns) :
    w.afterDrain.countP ConnPlace.accepts = w.conns.countP ConnPlace.accepts := by
  unfold ServerConns.afterDrain
  split
  · rfl
  · exact countP_pruned w.conns

theorem countP_afterListen (w : ServerConns) : w.afterListen.countP ConnPlace.accepts =
    w.conns.countP ConnPlace.accepts + w.threads.server.listening.toNat := by
  unfold ServerConns.afterListen
  cases w.threads.server.listening with
  | true =>
    rw [if_pos rfl, List.countP_append, countP_pruned]
    rfl
  | false => rfl

theorem listening_listen (s : ServerState) (k : Nat) (orphan : Nat → Bool) :
    (s.listen k orphan).listening = s.listening := (listen_spec s k orphan).2

/-- One for the acceptor has been used up, and `listen` has been called. -/
theorem accept_listened {w w' : ServerConns} {e : ServerConns.Event}
    (hl : w'.threads.server.listening = w.threads.server.listening)
    (hn : w'.acceptors + 1 = w.acceptors + w.threads.server.listening.toNat) : AcceptStep w e w' := by
  cases hb : w.threads.server.listening with
  | true =>
    rw [hb] at hn
    exact .keeps (fun _ => hb) (Nat.succ.inj hn)
  | false =>
    rw [hb] at hn
    exact .leaves (hl.trans hb) hn

theorem acceptStep_of_connStep {w w' : ServerConns} {e : ServerConns.Event} (h : ConnStep w e w') : AcceptStep w e w' := by
  cases h with
  | passes hl _ hlisteners _ => exact .keeps (fun h => hl.symm.trans h) (congrArg (_ + ·) hlisteners)
  | begins he hwas his _ hlisteners _ => exact .begins he hwas his (congrArg (_ + ·) hlisteners)
  | @listens ts hserver hlisteners _ =>
    refine accept_listened ((congrArg _ hserver).trans (listening_listen ..)) ?_
    show w.afterListen.countP ConnPlace.accepts + listeners ts + 1 =
      w.conns.countP ConnPlace.accepts + listeners w.threads + w.threads.server.listening.toNat
    rw [countP_afterListen, ← hlisteners]
    omega
  | @drains ts hl _ hlisteners _ =>
    refine .keeps hl ?_
    show w.afterDrain.countP ConnPlace.accepts + listeners ts = _
    rw [countP_afterDrain, hlisteners]
    rfl
  | @moves k p q hk _ _ haccepts =>
    have hset := countP_set_add (P := ConnPlace.accepts) hk q
    rw [haccepts] at hset
    exact .keeps id (congrArg (· + _) (Nat.add_right_cancel hset))
  | @leaves k p q hk hp hq _ hl =>
    have hset := countP_set_add (P := ConnPlace.accepts) hk q
    rw [hp, hq] at hset
    refine .leaves hl ?_
    show (w.conns.set k q).countP ConnPlace.accepts + listeners w.threads + 1 =
      w.conns.countP ConnPlace.accepts + listeners w.threads
    simp only [Bool.toNat_true, Bool.toNat_false] at hset
    omega
  | @listensNext k p q ts hk hp hq _ hserver hthreads =>
    have hset := countP_set_add (P := ConnPlace.accepts) (afterListen_get hk (ne_of_accepts hp).1) q
    rw [hp, hq, countP_afterListen] at hset
    refine accept_listened ((congrArg _ hserver).trans (listening_listen ..)) ?_
    show (w.afterListen.set k q).countP ConnPlace.accepts + listeners ts + 1 =
      w.conns.countP ConnPlace.accepts + listeners w.threads + w.threads.server.listening.toNat
    rw [show listeners ts = listeners w.threads by unfold listeners; rw [hthreads]]
    simp only [Bool.toNat_true, Bool.toNat_false] at hset
    omega
  | @closes k p ts hk hp hl _ hthreads =>
    have hset := countP_set_add (P := ConnPlace.accepts) hk .closed
    rw [hp] at hset
    refine .keeps (fun h => hl.symm.trans h) ?_
    show (w.conns.set k .closed).countP ConnPlace.accepts + listeners ts = w.acceptors
    rw [Nat.add_right_cancel hset]
    unfold listeners
    rw [hthreads]
    rfl

/-- As long as there are connections, the server listens or a `stop` waits for them. -/
def LookedAfter (w : ServerConns) : Prop :=
  w.threads.server.connPool ≠ [] →
    w.threads.server.listening = true ∨ ∃ t : Nat, w.threads.threads[t]? = some .waits

theorem LookedAfter.step {w w' : ServerConns} {e : ServerConns.Event} (h : LookedAfter w) (hstep : ConnStep w e w') : LookedAfter w' := by
  -- who waits in front of the step does behind it
  have hkeeps : ∀ {w' : ServerConns}, KeepWaiting w.threads w'.threads →
      (w.threads.server.listening = true → w'.threads.server.listening = true) →
      (w'.threads.server.connPool ≠ [] → w.threads.server.connPool ≠ []) → LookedAfter w' := by
    intro w' hwaits hl hpool hne
    rcases h (hpool hne) with hlistens | ⟨t, ht⟩
    · exact .inl (hl hlistens)
    · exact .inr ⟨t, hwaits t ht⟩
  have hlisten : ∀ {w' : ServerConns}, w'.threads.server = w.threads.server.listen w.conns.length w.orphan →
      KeepWaiting w.threads w'.threads → LookedAfter w' := by
    intro w' hserver hwaits
    unfold ServerState.listen at hserver
    split at hserver
    · rename_i hl
      intro _
      rw [hserver]
      exact .inl hl
    · exact hkeeps hwaits (by rw [hserver]; exact id) (by rw [hserver]; exact id)
  cases hstep with
  | passes hl hpool _ hwaits => exact hkeeps hwaits (fun h => hl.trans h) (fun h => hpool ▸ h)
  | begins _ _ his _ _ _ => exact fun _ => .inl his
  | listens hserver _ hwaits => exact hlisten hserver hwaits
  | drains _ _ _ hwaits => exact fun hne => .inr (hwaits hne).2
  | moves _ _ _ _ => exact h
  | leaves _ _ _ _ _ => exact h
  | @listensNext k p q ts _ _ _ _ hserver hthreads =>
    refine hlisten hserver fun t ht => ?_
    show ts.threads[t]? = _
    rw [hthreads]
    exact ht
  | @closes k p ts _ _ hl hpool hthreads =>
    refine hkeeps (fun t ht => ?_) (fun h => hl.trans h) ?_
    · show ts.threads[t]? = _
      rw [hthreads]
      exact ht
    · intro hne hempty
      refine hne ?_
      show ts.server.connPool = []
      rw [hpool, hempty]
      rfl

theorem lookedAfter_of_run {port : UInt16} {n : Nat} {ssl : Bool} {es : List ServerConns.Event} {w : ServerConns}
    (h : exec ServerConns.step (.initial port n ssl) es = some w) : LookedAfter w :=
  exec_invariant (fun _ w => LookedAfter w) (fun hne => absurd rfl hne)
    (fun _ _ _ _ _ hs hstep => hs.step (connStep_of_step hstep)) h

/-- No call of `start` or `stop` is under way, and no connection is left: none is for the acceptor. -/
theorem acceptors_settled {w : ServerConns} (hmanaged : Managed w) (hlooked : LookedAfter w)
    (houtside : AllOutside w.threads) (hl : w.threads.server.listening = false) :
    (∀ p ∈ w.conns, p = .closed) ∧ w.acceptors = 0 := by
  have hempty : w.threads.server.connPool = [] := by
    by_contra hne
    rcases hlooked hne with hlistens | ⟨t, ht⟩
    · rw [hl] at hlistens
      cases hlistens
    · cases houtside _ (List.mem_of_getElem? ht)
  have hclosed : ∀ p ∈ w.conns, p = .closed := by
    intro p hp
    obtain ⟨k, hk⟩ := List.mem_iff_getElem?.mp hp
    by_contra hne
    have hmem := (hmanaged.pool k).mpr ⟨p, hk, hne⟩
    rw [hempty] at hmem
    cases hmem
  refine ⟨hclosed, Nat.add_eq_zero_iff.mpr ⟨?_, ?_⟩⟩
  · refine List.countP_eq_zero.mpr fun p hp => ?_
    rw [hclosed p hp]
    exact Bool.false_ne_true
  · refine List.countP_eq_zero.mpr fun p hp => ?_
    rw [houtside p hp]
    exact Bool.false_ne_true

/-- A server is started while no other call of `start` or `stop` is under way. -/
def StartedAlone (w : ServerConns) (e : ServerConns.Event) : Prop :=
  ∀ t env, e = .start t env → AllOutside w.threads

theorem acceptor_of_run {port : UInt16} {n : Nat} {ssl : Bool} {es : List ServerConns.Event} {w : ServerConns}
    (h : exec ServerConns.step (.initial port n ssl) es = some w) :
    w.threads.server.listening = true → 0 < w.acceptors := by
  refine exec_invariant (fun _ w => w.threads.server.listening = true → 0 < w.acceptors)
    (fun h => by cases h) (fun _ s e s' _ hs hstep hl => ?_) h
  cases acceptStep_of_connStep (connStep_of_step hstep) with
  | begins _ _ _ hn => omega
  | keeps hwas hn =>
    rw [hn]
    exact hs (hwas hl)
  | leaves hnot _ =>
    rw [hl] at hnot
    cases hnot

/--
**There is always a connection for the acceptor**: a server that listens has given it one, or is about
to, whatever has become of the others; and it never has two if each `start` is called while no other
`start` or `stop` is under way.
-/
theorem one_acceptor (port : UInt16) (n : Nat) (ssl : Bool) (es : List ServerConns.Event) (w : ServerConns)
    (hrun : exec ServerConns.step (.initial port n ssl) es = some w) :
    (w.threads.server.listening = true → 0 < w.acceptors) ∧
      (Throughout ServerConns.step StartedAlone (.initial port n ssl) es → w.acceptors ≤ 1) := by
  refine ⟨acceptor_of_run hrun, fun halone => ?_⟩
  have hstart : Managed (.initial port n ssl) ∧ LookedAfter (.initial port n ssl) ∧
      (ServerConns.initial port n ssl).acceptors ≤ 1 := by
    refine ⟨managed_initial port n ssl, fun hne => absurd rfl hne, ?_⟩
    rw [(acceptors_settled (managed_initial port n ssl) (fun hne => absurd rfl hne)
      (fun p hp => (List.mem_replicate.mp hp).2) rfl).2]
    exact Nat.zero_le 1
  refine (exec_throughout (P := StartedAlone) (fun w => Managed w ∧ LookedAfter w ∧ w.acceptors ≤ 1) hstart
    (fun s e s' hs hstarted hstep => ?_) hrun halone).2.2
  obtain ⟨hmanaged, hlooked, hle⟩ := hs
  have hconn := connStep_of_step hstep
  refine ⟨hmanaged.step hconn, hlooked.step hconn, ?_⟩
  cases acceptStep_of_connStep hconn with
  | begins he hwas _ hn =>
    obtain ⟨_, hnone⟩ := acceptors_settled hmanaged hlooked (hstarted _ _ he) hwas
    omega
  | keeps _ hn => omega
  | leaves _ hn => omega

/-- A server and one client. The connection is accepted and handled, while the next one is waited for. -/
def acceptRun : List ServerConns.Event :=
  [.start 0 ⟨fun _ => false, 0⟩, .listen 0, .startup 0, .addActiveUser 0, .accept 0 true, .look 0, .listenNext 0]

theorem one_acceptor_accept : ∃ w, exec ServerConns.step (.initial 80 1 false) acceptRun = some w ∧
    w.threads.server.listening = true ∧ w.conns = [.handled, .accepting] ∧ 0 < w.acceptors ∧
    w.acceptors ≤ 1 := by
  have hrun : exec ServerConns.step (.initial 80 1 false) acceptRun = some
      { threads := ⟨⟨true, true, 80, [1, 0], 1, true⟩, [.outside]⟩, conns := [.handled, .accepting],
        sslFlag := false } := rfl
  have h := one_acceptor 80 1 false acceptRun _ hrun
  refine ⟨_, hrun, rfl, rfl, h.1 rfl, h.2 fun front e back w hes hw t env he => ?_⟩
  subst he
  -- the only start of the run is its first event
  rcases front with _ | ⟨e₁, front⟩
  · obtain rfl := Option.some.inj hw
    exact fun p hp => (List.mem_replicate.mp hp).2
  · have hmem : ServerConns.Event.start t env ∈ acceptRun.tail := by
      rw [hes]
      exact List.mem_append_right _ (List.mem_cons_self ..)
    simp [acceptRun] at hmem

/-- The server is started again while a `stop` waits: the connection that the first acceptor has failed
listens for another one. -/
example : ((exec ServerConns.step (.initial 80 2 false)
    (acceptRun.take 4 ++ [.stop 1, .start 0 ⟨fun _ => false, 0⟩, .listen 0, .accept 0 false, .look 0,
      .listenNext 0])).map ServerConns.acceptors) = some 2 := rfl

/-! ## Behind all calls -/

/-- The connections make no difference to the threads: their steps are those of `ServerThreads`. -/
theorem threads_of_step {w w' : ServerConns} {e : ServerConns.Event} (h : w.step e = some w') :
    ∃ fs, exec ServerThreads.step w.threads fs = some w'.threads := by
  have hone : ∀ {ts : ServerThreads} {f : ServerThreads.Event}, w.threads.step f = some ts →
      ∃ fs, exec ServerThreads.step w.threads fs = some ts := fun {_ f} hf =>
    ⟨[f], (Option.bind_fun_some _).trans hf⟩
  cases e with
  | start | listen | startup | addActiveUser | stop | wake | shutdown =>
    obtain ⟨ts, hts, rfl⟩ := Option.map_eq_some_iff.mp h
    exact hone hts
  | accept | handshake | finish | drop =>
    obtain ⟨_, h⟩ := Option.ite_none_right_eq_some.mp h
    obtain rfl := Option.some.inj h
    exact ⟨[], rfl⟩
  | look k =>
    dsimp only [ServerConns.step] at h
    split at h
    · obtain rfl := Option.some.inj h
      exact ⟨[], rfl⟩
    · cases h
  | listenNext k =>
    dsimp only [ServerConns.step] at h
    split at h
    · obtain ⟨ts, hts, rfl⟩ := Option.map_eq_some_iff.mp h
      exact hone hts
    · cases h
  | finishConnection k =>
    dsimp only [ServerConns.step] at h
    split at h
    · split at h
      · obtain rfl := Option.some.inj h
        exact ⟨[], rfl⟩
      · obtain ⟨ts, hts, rfl⟩ := Option.map_eq_some_iff.mp h
        exact hone hts
    · cases h

/--
**A server whose calls have all come back** either listens, as the one user of the scheduler and with a
connection at the acceptor, or one in `handle_accept` that the next one is to replace there; or it uses
the scheduler no more, and has closed every connection that it ever made.
-/
theorem settled_server (port : UInt16) (n : Nat) (ssl : Bool) (es : List ServerConns.Event) (w : ServerConns)
    (hrun : exec ServerConns.step (.initial port n ssl) es = some w) (houtside : AllOutside w.threads) :
    (w.threads.server.listening = true →
      w.threads.server.activeUsers = 1 ∧ ∃ p ∈ w.conns, p.accepts = true) ∧
    (w.threads.server.listening = false →
      w.threads.server.activeUsers = 0 ∧ ∀ p ∈ w.conns, p = .closed) := by
  obtain ⟨fs, hfs⟩ := exec_simulates ServerConns.threads (fun _ _ _ => threads_of_step) hrun
  have husers := settled_activeUsers hfs houtside
  constructor
  · intro hl
    rw [hl] at husers
    refine ⟨husers, List.countP_pos_iff.mp ?_⟩
    have hpos : 0 < w.conns.countP ConnPlace.accepts + listeners w.threads := acceptor_of_run hrun hl
    have hnone : listeners w.threads = 0 := by
      refine List.countP_eq_zero.mpr fun p hp => ?_
      rw [houtside p hp]
      exact Bool.false_ne_true
    omega
  · intro hl
    rw [hl] at husers
    exact ⟨husers, (acceptors_settled (managed_of_run hrun) (lookedAfter_of_run hrun) houtside hl).1⟩

/-- A handled connection is dropped. -/
def stopRun : List ServerConns.Event :=
  acceptRun ++ [.drop 0, .stop 0, .accept 1 false, .look 1, .finishConnection 1, .wake 0]

theorem settled_server_stop : ∃ w, exec ServerConns.step (.initial 80 1 false) stopRun = some w ∧
    w.threads.server.activeUsers = 0 ∧ ∀ p ∈ w.conns, p = .closed := by
  have hrun : exec ServerConns.step (.initial 80 1 false) stopRun = some
      { threads := ⟨⟨false, false, 80, [], 0, true⟩, [.outside]⟩, conns := [.closed, .closed],
        sslFlag := false } := rfl
  exact ⟨_, hrun, (settled_server 80 1 false stopRun _ hrun fun p hp => List.mem_singleton.mp hp).2 rfl⟩

end Pion.Proof
