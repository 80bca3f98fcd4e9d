import Pion.Proof.Connections

/-!
# When `stop` returns

`stop` comes back when the pool is empty. What waits for the acceptor, or has not been given to
`handle_connection` yet, goes by itself; what has been given to it has to be finished or dropped by
whoever has it. In particular a `stop` that a request handler calls, with the request's connection in
its hands, never returns.
-/

namespace Pion.Proof

open Pion Lib ServerConns

/-- The connection is handled, or will be, as its acceptance has succeeded already. -/
def comesHandled (ssl : Bool) : ConnPlace → Bool
  | .handled => true
  | .accepted ok | .listensNext ok => ok && !ssl
  | .accepting | .handshaking | .finishing _ | .dropped | .closed => false

/-- The event is one in which the connection is given back by those that handle it. -/
def GivesBack (k : Nat) (e : ServerConns.Event) : Prop := (∃ keepAlive, e = .finish k keepAlive) ∨ e = .drop k

theorem sslFlag_step {w w' : ServerConns} {e : ServerConns.Event} (h : ConnStep w e w') :
    w'.sslFlag = w.sslFlag := by cases h <;> rfl

theorem comesHandled_afterAccept (ssl ok : Bool) :
    comesHandled ssl (.afterAccept ssl ok) = (ok && !ssl) := by cases ssl <;> cases ok <;> rfl

theorem ne_of_comesHandled {ssl : Bool} {p : ConnPlace} (h : comesHandled ssl p = true) :
    p ≠ .dropped ∧ p ≠ .closed := by constructor <;> rintro rfl <;> cases h

/-! ## Connections that are not given back -/

theorem setConn_get {w : ServerConns} {k n : Nat} {p q : ConnPlace} (h : w.conns[k]? = some p) :
    (w.setConn k q).conns[n]? = if k = n then some q else w.conns[n]? := by
  obtain ⟨hlt, _⟩ := List.getElem?_eq_some_iff.mp h
  show (w.conns.set k q)[n]? = _
  rw [List.getElem?_set, if_pos hlt]

/-- One connection is moved: if it is the one that comes handled, it still does. -/
theorem comesHandled_setConn {w : ServerConns} {k n : Nat} {p q r : ConnPlace} {ssl : Bool}
    (hk : w.conns[k]? = some p) (hn : w.conns[n]? = some r) (hr : comesHandled ssl r = true)
    (hq : k = n → comesHandled ssl p = true → comesHandled ssl q = true) :
    ∃ r', (w.setConn k q).conns[n]? = some r' ∧ comesHandled ssl r' = true := by
  rw [setConn_get hk]
  split
  · rename_i he
    subst he
    rw [hk] at hn
    obtain rfl := Option.some.inj hn
    exact ⟨q, rfl, hq rfl hr⟩
  · exact ⟨r, hn, hr⟩

theorem afterDrain_get {w : ServerConns} {k : Nat} {p : ConnPlace} (h : w.conns[k]? = some p)
    (hp : p ≠ .dropped) : w.afterDrain[k]? = some p := by
  unfold ServerConns.afterDrain
  split
  · exact h
  · rw [List.getElem?_map, h]
    exact congrArg some (pruned_eq hp)

/-- A connection that comes handled stays so until it is given back. -/
theorem comesHandled_step {w w' : ServerConns} {e : ServerConns.Event} (h : w.step e = some w') {n : Nat}
    {r : ConnPlace} (hn : w.conns[n]? = some r) (hr : comesHandled w.sslFlag r = true) (he : ¬ GivesBack n e) :
    ∃ r', w'.conns[n]? = some r' ∧ comesHandled w.sslFlag r' = true := by
  have hdropped := (ne_of_comesHandled hr).1
  cases e with
  | start t env | startup t | addActiveUser t | shutdown =>
    obtain ⟨ts, _, rfl⟩ := Option.map_eq_some_iff.mp h
    exact ⟨r, hn, hr⟩
  | listen t =>
    obtain ⟨ts, _, rfl⟩ := Option.map_eq_some_iff.mp h
    exact ⟨r, afterListen_get hn hdropped, hr⟩
  | stop t =>
    obtain ⟨ts, _, rfl⟩ := Option.map_eq_some_iff.mp h
    refine ⟨r, ?_, hr⟩
    show (if _ then w.afterDrain else w.conns)[n]? = some r
    split
    · exact afterDrain_get hn hdropped
    · exact hn
  | wake t =>
    obtain ⟨ts, _, rfl⟩ := Option.map_eq_some_iff.mp h
    exact ⟨r, afterDrain_get hn hdropped, hr⟩
  | accept k ok =>
    obtain ⟨hk, h⟩ := Option.ite_none_right_eq_some.mp h
    obtain rfl := Option.some.inj h
    exact comesHandled_setConn hk hn hr fun _ hp => by cases hp
  | look k =>
    dsimp only [ServerConns.step] at h
    split at h
    · rename_i ok hk
      obtain rfl := Option.some.inj h
      refine comesHandled_setConn hk hn hr fun _ hp => ?_
      split
      · exact hp
      · exact (comesHandled_afterAccept w.sslFlag ok).trans hp
    · cases h
  | listenNext k =>
    dsimp only [ServerConns.step] at h
    split at h
    · rename_i ok hk
      obtain ⟨ts, _, rfl⟩ := Option.map_eq_some_iff.mp h
      exact comesHandled_setConn (w := { w with threads := ts, conns := w.afterListen })
        (afterListen_get hk (by simp)) (afterListen_get hn hdropped) hr
        fun _ hp => (comesHandled_afterAccept w.sslFlag ok).trans hp
    · cases h
  | handshake k ok =>
    obtain ⟨hk, h⟩ := Option.ite_none_right_eq_some.mp h
    obtain rfl := Option.some.inj h
    exact comesHandled_setConn hk hn hr fun _ hp => by cases hp
  | finish k keepAlive =>
    obtain ⟨hk, h⟩ := Option.ite_none_right_eq_some.mp h
    obtain rfl := Option.some.inj h
    refine comesHandled_setConn hk hn hr fun hkn _ => absurd (.inl ⟨keepAlive, ?_⟩) he
    rw [hkn]
  | drop k =>
    obtain ⟨hk, h⟩ := Option.ite_none_right_eq_some.mp h
    obtain rfl := Option.some.inj h
    refine comesHandled_setConn hk hn hr fun hkn _ => absurd (.inr ?_) he
    rw [hkn]
  | finishConnection k =>
    dsimp only [ServerConns.step] at h
    split at h
    · rename_i keepAlive hk
      split at h
      · obtain rfl := Option.some.inj h
        exact comesHandled_setConn hk hn hr fun _ hp => by cases hp
      · obtain ⟨ts, _, rfl⟩ := Option.map_eq_some_iff.mp h
        exact comesHandled_setConn (w := { w with threads := ts }) hk hn hr fun _ hp => by cases hp
    · cases h

/-- A thread in `stop` goes on waiting, unless the step leaves the pool empty. -/
theorem waits_step {w w' : ServerConns} {e : ServerConns.Event} (h : ConnStep w e w') {t : Nat}
    (ht : w.threads.threads[t]? = some .waits) (hpool : w'.threads.server.connPool ≠ []) :
    w'.threads.threads[t]? = some .waits := by
  cases h with
  | passes _ _ _ hwaits => exact hwaits t ht
  | begins _ _ _ _ _ hwaits => exact hwaits t ht
  | listens _ _ hwaits => exact hwaits t ht
  | drains _ _ _ hwaits => exact (hwaits hpool).1 t ht
  | moves => exact ht
  | leaves => exact ht
  | @listensNext k p q ts _ _ _ _ _ hthreads =>
    show ts.threads[t]? = _
    rw [hthreads]
    exact ht
  | @closes k p ts _ _ _ _ hthreads =>
    show ts.threads[t]? = _
    rw [hthreads]
    exact ht

/-- A thread waits in `stop` for the connection. -/
structure WaitsFor (t k : Nat) (ssl : Bool) (w : ServerConns) : Prop where
  managed : Managed w
  waits : w.threads.threads[t]? = some .waits
  flag : w.sslFlag = ssl
  comes : ∃ p, w.conns[k]? = some p ∧ comesHandled ssl p = true

theorem WaitsFor.step {t k : Nat} {ssl : Bool} {w w' : ServerConns} {e : ServerConns.Event}
    (h : WaitsFor t k ssl w) (he : ¬ GivesBack k e) (hstep : w.step e = some w') : WaitsFor t k ssl w' := by
  have hconn := connStep_of_step hstep
  have hmanaged := h.managed.step hconn
  obtain ⟨p, hp, hcomes⟩ := h.comes
  have hafter := comesHandled_step hstep hp (by rwa [h.flag]) he
  rw [h.flag] at hafter
  refine ⟨hmanaged, waits_step hconn h.waits ?_, (sslFlag_step hconn).trans h.flag, hafter⟩
  -- the connection is in the pool
  obtain ⟨q, hq, hcomes'⟩ := hafter
  exact List.ne_nil_of_mem ((hmanaged.pool k).mpr ⟨q, hq, (ne_of_comesHandled hcomes').2⟩)

/-! ## Connections that close -/

/-- No connection of `K` is given back in the run. -/
def Withholds (K : Nat → Prop) (es : List ServerConns.Event) : Prop := ∀ e ∈ es, ∀ k, GivesBack k e → ¬ K k

theorem withholds_append {K : Nat → Prop} {es fs : List ServerConns.Event} (h : Withholds K es)
    (h' : Withholds K fs) : Withholds K (es ++ fs) := fun e he =>
  (List.mem_append.mp he).elim (h e) (h' e)

/-- The connection can come to where it is closed, or waits to be pruned; and nothing else happens. -/
def CanClose (K : Nat → Prop) (w : ServerConns) (k : Nat) : Prop :=
  ∃ es w' p, Withholds K es ∧ exec ServerConns.step w es = some w' ∧ w'.conns = w.conns.set k p ∧
    (p = .closed ∨ p = .dropped) ∧ w'.threads.threads = w.threads.threads ∧
    w'.threads.server.listening = false

section closing

variable {K : Nat → Prop} {w : ServerConns} {k : Nat}

theorem CanClose.of_step (e : ServerConns.Event) (w' : ServerConns) {q : ConnPlace}
    (hstep : w.step e = some w') (he : ∀ n, GivesBack n e → ¬ K n) (hconns : w'.conns = w.conns.set k q)
    (hthreads : w'.threads.threads = w.threads.threads) (h : CanClose K w' k) : CanClose K w k := by
  obtain ⟨es, v, p, hes, hrun, hv, hp, hv', hl⟩ := h
  refine ⟨e :: es, v, p, ?_, ?_, ?_, hp, hv'.trans hthreads, hl⟩
  · intro f hf
    rcases List.mem_cons.mp hf with rfl | hf
    · exact he
    · exact hes f hf
  · rw [exec, hstep]
    exact hrun
  · rw [hv, hconns, List.set_set]

theorem not_givesBack {e : ServerConns.Event} (hfinish : ∀ n b, e ≠ .finish n b) (hdrop : ∀ n, e ≠ .drop n)
    (n : Nat) (h : GivesBack n e) : ¬ K n := by
  rcases h with ⟨b, he⟩ | he
  · exact absurd he (hfinish n b)
  · exact absurd he (hdrop n)

theorem canClose_finishing {b : Bool} (hk : w.conns[k]? = some (.finishing b))
    (hl : w.threads.server.listening = false) : CanClose K w k := by
  let server := { w.threads.server with connPool := w.threads.server.connPool.filter (· ≠ k) }
  refine ⟨[.finishConnection k], { w with threads := { w.threads with server := server } }.setConn k .closed,
    .closed, ?_, ?_, rfl, .inl rfl, rfl, hl⟩
  · intro e he
    obtain rfl := List.mem_singleton.mp he
    exact not_givesBack (by simp) (by simp)
  · refine (Option.bind_fun_some _).trans ?_
    dsimp only [ServerConns.step]
    rw [hk]
    dsimp only
    rw [if_neg (by rw [hl]; simp)]
    rfl

theorem canClose_handled (hk : w.conns[k]? = some .handled) (hl : w.threads.server.listening = false)
    (hK : ¬ K k) : CanClose K w k := by
  refine .of_step (.finish k false) (w.setConn k (.finishing false)) ?_ ?_ rfl rfl
    (canClose_finishing ((setConn_get hk).trans (if_pos rfl)) hl)
  · exact if_pos hk
  · rintro n (⟨b, he⟩ | he)
    · obtain ⟨rfl, _⟩ := ServerConns.Event.finish.inj he
      exact hK
    · cases he

theorem canClose_handshaking (hk : w.conns[k]? = some .handshaking) (hl : w.threads.server.listening = false) :
    CanClose K w k :=
  .of_step (.handshake k false) (w.setConn k (.finishing false)) (if_pos hk)
    (not_givesBack (by simp) (by simp)) rfl rfl (canClose_finishing ((setConn_get hk).trans (if_pos rfl)) hl)

/-- Behind its acceptance. -/
theorem canClose_afterAccept {ok : Bool} (hk : w.conns[k]? = some (.afterAccept w.sslFlag ok))
    (hl : w.threads.server.listening = false) (hK : K k → (ok && !w.sslFlag) = false) : CanClose K w k := by
  cases ok with
  | false => exact canClose_finishing hk hl
  | true =>
    cases hssl : w.sslFlag with
    | true =>
      rw [hssl] at hk
      exact canClose_handshaking hk hl
    | false =>
      rw [hssl] at hk hK
      exact canClose_handled hk hl fun h => by cases hK h

theorem canClose_accepted {ok : Bool} (hk : w.conns[k]? = some (.accepted ok))
    (hl : w.threads.server.listening = false) (hK : K k → (ok && !w.sslFlag) = false) : CanClose K w k := by
  refine .of_step (.look k) (w.setConn k (.afterAccept w.sslFlag ok)) ?_
    (not_givesBack (by simp) (by simp)) rfl rfl
    (canClose_afterAccept ((setConn_get hk).trans (if_pos rfl)) hl hK)
  dsimp only [ServerConns.step]
  rw [hk]
  dsimp only
  rw [hl, if_neg Bool.false_ne_true]

theorem canClose_listensNext {ok : Bool} (hk : w.conns[k]? = some (.listensNext ok))
    (hl : w.threads.server.listening = false) (hK : K k → (ok && !w.sslFlag) = false) : CanClose K w k := by
  have hserver : w.threads.server.listen w.conns.length w.orphan = w.threads.server := by
    unfold ServerState.listen
    rw [hl, if_neg Bool.false_ne_true]
  have hconns : w.afterListen = w.conns := by
    unfold ServerConns.afterListen
    rw [hl, if_neg Bool.false_ne_true]
  refine .of_step (.listenNext k) (w.setConn k (.afterAccept w.sslFlag ok)) ?_
    (not_givesBack (by simp) (by simp)) rfl rfl
    (canClose_afterAccept ((setConn_get hk).trans (if_pos rfl)) hl hK)
  dsimp only [ServerConns.step]
  rw [hk]
  dsimp only [ServerThreads.step]
  rw [hserver, hconns]
  rfl

/-- **A connection of a stopped server closes**, unless it is kept by those that handle it. -/
theorem canClose {p : ConnPlace} (hk : w.conns[k]? = some p) (hl : w.threads.server.listening = false)
    (hK : K k → comesHandled w.sslFlag p = false) : CanClose K w k := by
  have hstays : p = .closed ∨ p = .dropped → CanClose K w k := fun hp => by
    obtain ⟨hlt, rfl⟩ := List.getElem?_eq_some_iff.mp hk
    exact ⟨[], w, _, fun _ he => absurd he List.not_mem_nil, rfl, (List.set_getElem_self hlt).symm, hp, rfl, hl⟩
  cases p with
  | accepting =>
    exact .of_step (.accept k false) (w.setConn k (.accepted false)) (if_pos hk)
      (not_givesBack (by simp) (by simp)) rfl rfl
      (canClose_accepted ((setConn_get hk).trans (if_pos rfl)) hl fun _ => rfl)
  | accepted ok => exact canClose_accepted hk hl hK
  | listensNext ok => exact canClose_listensNext hk hl hK
  | handshaking => exact canClose_handshaking hk hl
  | handled => exact canClose_handled hk hl fun h => by cases hK h
  | finishing b => exact canClose_finishing hk hl
  | dropped => exact hstays (.inr rfl)
  | closed => exact hstays (.inl rfl)

/-- The first connections close, one behind the other. -/
theorem close_first (hl : w.threads.server.listening = false)
    (hK : ∀ (k : Nat) p, K k → w.conns[k]? = some p → comesHandled w.sslFlag p = false) (n : Nat) :
    ∃ es w', Withholds K es ∧ exec ServerConns.step w es = some w' ∧
      w'.threads.threads = w.threads.threads ∧ w'.threads.server.listening = false ∧
      (∀ (k : Nat) p, k < n → w'.conns[k]? = some p → p = .closed ∨ p = .dropped) ∧
      ∀ k : Nat, n ≤ k → w'.conns[k]? = w.conns[k]? := by
  induction n with
  | zero =>
    exact ⟨[], w, fun _ he => absurd he List.not_mem_nil, rfl, rfl, hl,
      fun k _ hk => absurd hk (Nat.not_lt_zero k), fun _ _ => rfl⟩
  | succ n ih =>
    obtain ⟨es, v, hes, hrun, hthreads, hlv, hfirst, hrest⟩ := ih
    cases hn : w.conns[n]? with
    | none =>
      -- there are no more connections
      refine ⟨es, v, hes, hrun, hthreads, hlv, fun k p hk hp => ?_, fun k hk => hrest k (by omega)⟩
      rcases Nat.lt_succ_iff_lt_or_eq.mp hk with hk | rfl
      · exact hfirst k p hk hp
      · rw [hrest k (Nat.le_refl k), hn] at hp
        cases hp
    | some p =>
      have hvn : v.conns[n]? = some p := (hrest n (Nat.le_refl n)).trans hn
      have hssl : v.sslFlag = w.sslFlag :=
        exec_invariant (fun _ v => v.sslFlag = w.sslFlag) rfl
          (fun _ _ _ _ _ h hstep => (sslFlag_step (connStep_of_step hstep)).trans h) hrun
      have hcan := canClose (K := K) hvn hlv fun h => by rw [hssl]; exact hK n p h hn
      obtain ⟨fs, u, q, hfs, hrun', hconns, hq, hthreads', hlu⟩ := hcan
      obtain ⟨hlt, _⟩ := List.getElem?_eq_some_iff.mp hvn
      have hget : ∀ k : Nat, u.conns[k]? = if n = k then some q else v.conns[k]? := by
        intro k
        rw [hconns, List.getElem?_set, if_pos hlt]
      refine ⟨es ++ fs, u, withholds_append hes hfs, exec_trans hrun hrun', hthreads'.trans hthreads, hlu,
        fun k r hk hr => ?_, fun k hk => ?_⟩
      · rw [hget k] at hr
        split at hr
        · obtain rfl := Option.some.inj hr
          exact hq
        · exact hfirst k r (by omega) hr
      · rw [hget k, if_neg (by omega)]
        exact hrest k (by omega)

end closing

/-! ## Coming back -/

/--
**When `stop` returns.** Let no connection of `K` be given back. A thread that waits in `stop` can come
back if and only if none of them is being handled, or will be: the connections that wait for the
acceptor, shake hands or are about to be finished do not keep it.
-/
theorem stop_returns_iff (port : UInt16) (n : Nat) (ssl : Bool) (es : List ServerConns.Event) (w : ServerConns)
    (hrun : exec ServerConns.step (.initial port n ssl) es = some w) (t : Nat)
    (ht : w.threads.threads[t]? = some .waits) (hl : w.threads.server.listening = false) (K : Nat → Prop) :
    (∃ es' w', Withholds K es' ∧ exec ServerConns.step w es' = some w' ∧
      w'.threads.threads[t]? = some .outside) ↔
      ∀ (k : Nat) p, K k → w.conns[k]? = some p → comesHandled w.sslFlag p = false := by
  have hmanaged := managed_of_run hrun
  constructor
  · rintro ⟨fs, w', hfs, hrun', hout⟩ k p hK hk
    by_contra hnot
    have hwaits : WaitsFor t k w.sslFlag w := ⟨hmanaged, ht, rfl, p, hk, eq_true_of_ne_false hnot⟩
    -- the connection is not given back, so the thread waits to the end
    have hend := exec_invariant
      (fun gs v => (∀ e ∈ gs, ¬ GivesBack k e) → WaitsFor t k w.sslFlag v) (fun _ => hwaits)
      (fun gs v e v' _ h hstep hall => (h fun f hf => hall f (List.mem_append_left _ hf)).step
        (hall e (List.mem_append_right _ (List.mem_singleton_self e))) hstep) hrun'
      fun e he hback => hfs e he k hback hK
    rw [hend.waits] at hout
    cases hout
  · intro hK
    obtain ⟨fs, v, hfs, hrun', hthreads, _, hfirst, hrest⟩ := close_first hl hK w.conns.length
    have hvt : v.threads.threads[t]? = some .waits := by rw [hthreads]; exact ht
    have hidle : ∀ (k : Nat) p, v.conns[k]? = some p → p = .closed ∨ p = .dropped := by
      intro k p hp
      refine hfirst k p ?_ hp
      by_contra hlt
      rw [hrest k (not_lt.mp hlt), List.getElem?_eq_none (not_lt.mp hlt)] at hp
      cases hp
    -- what is left is pruned
    have hpool : (v.threads.server.drain v.orphan).1.connPool = [] := by
      rw [drain_connPool, List.eq_nil_iff_forall_not_mem]
      intro k hk
      obtain ⟨p, hp, hclosed⟩ := ((managed_of_run (exec_trans hrun hrun')).mem_pruned k).mp hk
      rw [List.getElem?_map] at hp
      obtain ⟨q, hq, rfl⟩ := Option.map_eq_some_iff.mp hp
      rcases hidle k q hq with rfl | rfl <;> exact hclosed rfl
    refine ⟨fs ++ [.wake t], { v with
      threads := v.threads.moved t .outside (v.threads.server.drain v.orphan).1
      conns := v.afterDrain }, ?_, exec_snoc.mpr ⟨v, hrun', ?_⟩, ?_⟩
    · refine withholds_append hfs fun e he => ?_
      obtain rfl := List.mem_singleton.mp he
      exact not_givesBack (by simp) (by simp)
    · dsimp only [ServerConns.step, ServerThreads.step]
      rw [if_pos hvt, (drain_done v.threads.server v.orphan).mpr hpool]
      rfl
    · exact (moved_place hvt .outside _ t).trans (if_pos rfl)

/-- The server is stopped from the handler of a request. -/
def stopsInHandler : List ServerConns.Event := acceptRun ++ [.stop 0]

theorem stop_returns_iff_handler : ∃ w, exec ServerConns.step (.initial 80 1 false) stopsInHandler = some w ∧
    ¬ ∃ es w', Withholds (fun k => k = 0) es ∧ exec ServerConns.step w es = some w' ∧
      w'.threads.threads[0]? = some .outside := by
  refine ⟨_, rfl, fun hreturns => ?_⟩
  have hfree := (stop_returns_iff 80 1 false stopsInHandler _ rfl 0 rfl rfl fun k => k = 0).mp hreturns
  cases hfree 0 .handled rfl rfl

end Pion.Proof
