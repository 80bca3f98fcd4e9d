import Pion.Lib.Machine
import Pion.Proof.Broadcast
import Pion.WebsocketBroadcasts

/-!
# What broadcasts reach

The registry forgets connections when it comes upon one that has been destroyed, and only then. What
broadcasts reach is the same as if it remembered all that was ever registered, and looked each time
which of it is still there.
-/

namespace Pion.Proof

open Pion Lib WsServer

variable {lib : WebsocketLibrary}

/-! ## What broadcasts are for -/

/-- Everything that was registered, and what has been destroyed. -/
structure Subscribers where
  registered : List (Bytes × WsConn) := []
  expired : List Nat := []
  posted : List (Nat × Bytes) := []

/-- A broadcast is for those that are registered on the path, and are still there. -/
def Subscribers.step (lib : WebsocketLibrary) (a : Subscribers) : WsServer.Event → Subscribers
  | .register path id conn => { a with registered := a.registered ++ [(path, { id := id, conn := conn })] }
  | .expire conn => { a with expired := conn :: a.expired }
  | .broadcast path message frameType destIds =>
    { a with
      posted := a.posted ++ (a.registered.filter fun e =>
        e.1 = path && (destined destIds e.2.id && decide (e.2.conn ∉ a.expired))).map fun e =>
          (e.2.conn, lib.makeHeader frameType message.length ++ message) }

/-! ## The registry stands for them -/

/-- On each path, the registry and the subscribers have the same living connections. -/
structure StandsFor (w : WsServer) (a : Subscribers) : Prop where
  expired : w.expired = a.expired
  posted : w.posted = a.posted
  entries : ∀ path, w.registry.entries.filter (fun e => e.1 = path && w.alive e.2.conn) =
    a.registered.filter fun e => e.1 = path && w.alive e.2.conn

theorem filter_alive (l : List (Bytes × WsConn)) (alive : Nat → Bool) (path : Bytes) (p : Bytes × WsConn → Bool) :
    l.filter (fun e => e.1 = path && (p e && alive e.2.conn)) =
      (l.filter fun e => e.1 = path && alive e.2.conn).filter p := by
  rw [List.filter_filter]
  refine List.filter_congr fun e _ => ?_
  cases p e <;> simp

/-- Connections that are not there any more make no difference to a selection of those that are. -/
theorem filter_purged (l : List (Bytes × WsConn)) (alive : Nat → Bool) (path : Bytes) :
    (l.filter fun e => alive e.2.conn).filter (fun e => e.1 = path && alive e.2.conn) =
      l.filter fun e => e.1 = path && alive e.2.conn := by
  rw [List.filter_filter]
  refine List.filter_congr fun e _ => ?_
  cases alive e.2.conn <;> simp

theorem StandsFor.register {w : WsServer} {a : Subscribers} (h : StandsFor w a) (path id : Bytes) (conn : Nat) :
    StandsFor { w with registry := registerWsConn w.registry w.alive path id conn }
      (a.step lib (.register path id conn)) where
  expired := h.expired
  posted := h.posted
  entries key := by
    show (registerWsConn w.registry w.alive path id conn).entries.filter (fun e => e.1 = key && w.alive e.2.conn) =
      (a.registered ++ [(path, WsConn.mk id conn)]).filter fun e => e.1 = key && w.alive e.2.conn
    rw [registerWsConn, Multimap.filter_insert, List.filter_append, ← h.entries key]
    exact congrArg (· ++ _) (filter_purged w.registry.entries w.alive key)

theorem StandsFor.expire {w : WsServer} {a : Subscribers} (h : StandsFor w a) (conn : Nat) :
    StandsFor { w with expired := conn :: w.expired } (a.step lib (.expire conn)) where
  expired := congrArg (conn :: ·) h.expired
  posted := h.posted
  entries path := by
    -- those that are still there were there before
    have hstill : ∀ e : Bytes × WsConn, ({ w with expired := conn :: w.expired } : WsServer).alive e.2.conn =
        (decide (e.2.conn ≠ conn) && w.alive e.2.conn) := by
      intro e
      unfold WsServer.alive
      simp
    show w.registry.entries.filter _ = a.registered.filter _
    simp only [hstill]
    rw [filter_alive, filter_alive, h.entries path]

/-- What `find_ws_conns` leaves in the registry are all the living. -/
theorem Found.living {registry : WsRegistry} {alive : Nat → Bool} {path : Bytes} {destIds : List Bytes}
    {r : List (Bytes × WsConn) × List Nat} (h : Found registry alive path destIds r) (key : Bytes) :
    r.1.filter (fun e => e.1 = key && alive e.2.conn) =
      registry.entries.filter fun e => e.1 = key && alive e.2.conn := by
  have hliving : ∀ l : List (Bytes × WsConn),
      (l.filter fun e => alive e.2.conn || e.1 ≠ path).filter (fun e => e.1 = key && alive e.2.conn) =
        l.filter fun e => e.1 = key && alive e.2.conn := by
    intro l
    rw [List.filter_filter]
    refine List.filter_congr fun e _ => ?_
    cases alive e.2.conn <;> simp
  have hle := h.old.filter fun e => e.1 = key && alive e.2.conn
  have hge := h.kept.filter fun e => e.1 = key && alive e.2.conn
  rw [hliving] at hge
  exact hle.antisymm hge

/-- `find_ws_conns` has ended: it has found what it should. -/
theorem findWsConns_found {registry : WsRegistry} {alive : Nat → Bool} {path : Bytes} {destIds : List Bytes}
    {n : Nat} {r : List (Bytes × WsConn) × List Nat} (h : findWsConns registry alive path destIds n = some r)
    (hn : n = (registry.range path).length) : Found registry alive path destIds r := by
  by_cases hall : ∀ e ∈ registry.range path, destined destIds e.2.id = true
  · rw [hn, findWsConns_destined hall] at h
    rw [← Option.some.inj h]
    exact found_destined hall
  · push Not at hall
    obtain ⟨e, he, hid⟩ := hall
    unfold findWsConns at h
    rw [findWsConnsLoop_stuck n _ ⟨e, he, eq_false_of_ne_true hid⟩] at h
    cases h

theorem broadcastWebsocket_cases (lib : WebsocketLibrary) (w : WsServer) (path message : Bytes)
    (frameType : FrameType) (destIds : List Bytes) :
    (findWsConns w.registry w.alive path destIds (w.registry.range path).length = none ∧
      w.broadcastWebsocket lib path message frameType destIds = { w with spins := true }) ∨
    ∃ r sorted, findWsConns w.registry w.alive path destIds (w.registry.range path).length = some r ∧
      w.broadcastWebsocket lib path message frameType destIds =
        { w with
          registry := ⟨r.1, sorted⟩
          posted := w.posted ++ broadcastTo lib r.2 message frameType } := by
  unfold broadcastWebsocket
  split
  · rename_i h
    exact .inl ⟨h, rfl⟩
  · rename_i r h
    exact .inr ⟨r, w.registry.sorted.sublist (findWsConns_sublist h), h, rfl⟩

theorem StandsFor.broadcast {w : WsServer} {a : Subscribers} (h : StandsFor w a) (path message : Bytes)
    (frameType : FrameType) (destIds : List Bytes)
    (hends : (w.broadcastWebsocket lib path message frameType destIds).spins = false) :
    StandsFor (w.broadcastWebsocket lib path message frameType destIds)
      (a.step lib (.broadcast path message frameType destIds)) := by
  rcases broadcastWebsocket_cases lib w path message frameType destIds with
    ⟨_, heq⟩ | ⟨r, sorted, hr, heq⟩
  · rw [heq] at hends
    cases hends
  · have hfound := findWsConns_found hr rfl
    have hvec : w.registry.entries.filter (fun e =>
        e.1 = path && destined destIds e.2.id && w.alive e.2.conn) =
          a.registered.filter fun e => e.1 = path && (destined destIds e.2.id && w.alive e.2.conn) := by
      simp only [Bool.and_assoc]
      rw [filter_alive, filter_alive, h.entries path]
    rw [heq]
    refine ⟨h.expired, ?_, fun key => (hfound.living key).trans (h.entries key)⟩
    show w.posted ++ broadcastTo lib r.2 message frameType = a.posted ++ _
    rw [h.posted, broadcastTo, hfound.vec, hvec, List.map_map, ← h.expired]
    rfl

/-- A broadcast to everybody on its path ends. -/
theorem broadcastWebsocket_all (w : WsServer) (path message : Bytes) (frameType : FrameType) :
    (w.broadcastWebsocket lib path message frameType []).spins = w.spins := by
  rcases broadcastWebsocket_cases lib w path message frameType [] with
    ⟨hnone, _⟩ | ⟨r, sorted, _, heq⟩
  · rw [findWsConns_destined fun e _ => destined_iff.mpr (.inl rfl)] at hnone
    cases hnone
  · rw [heq]

/-! ## Runs -/

theorem StandsFor.step {w w' : WsServer} {a : Subscribers} {e : WsServer.Event}
    (h : w.spins = false → StandsFor w a) (hstep : w.step lib e = some w') (hends : w'.spins = false) :
    StandsFor w' (a.step lib e) := by
  cases e with
  | register path id conn =>
    obtain ⟨hfree, hstep⟩ := Option.ite_none_left_eq_some.mp hstep
    obtain rfl := Option.some.inj hstep
    exact (h (eq_false_of_ne_true hfree)).register path id conn
  | expire conn =>
    obtain rfl := Option.some.inj hstep
    exact (h hends).expire conn
  | broadcast path message frameType destIds =>
    obtain ⟨hfree, hstep⟩ := Option.ite_none_left_eq_some.mp hstep
    obtain rfl := Option.some.inj hstep
    exact (h (eq_false_of_ne_true hfree)).broadcast path message frameType destIds hends

/-- The event is no broadcast that names those it is for. -/
def NamesNobody : WsServer.Event → Prop
  | .broadcast _ _ _ destIds => destIds = []
  | .register _ _ _ | .expire _ => True

theorem step_namesNobody {w : WsServer} (h : w.spins = false) {e : WsServer.Event} (he : NamesNobody e) :
    ∃ w', w.step lib e = some w' ∧ w'.spins = false := by
  cases e with
  | register path id conn => exact ⟨_, if_neg (by simp [h]), h⟩
  | expire conn => exact ⟨_, rfl, h⟩
  | broadcast path message frameType destIds =>
    obtain rfl : destIds = [] := he
    exact ⟨_, if_neg (by simp [h]), (broadcastWebsocket_all w path message frameType).trans h⟩

theorem run_namesNobody {w : WsServer} (h : w.spins = false) {es : List WsServer.Event}
    (hes : ∀ e ∈ es, NamesNobody e) :
    ∃ w', exec (WsServer.step lib) w es = some w' ∧ w'.spins = false := by
  induction es generalizing w with
  | nil => exact ⟨w, rfl, h⟩
  | cons e es ih =>
    obtain ⟨v, hv, hfree⟩ := step_namesNobody h (hes e List.mem_cons_self)
    obtain ⟨w', hrun, hends⟩ := ih hfree fun f hf => hes f (List.mem_cons_of_mem e hf)
    refine ⟨w', ?_, hends⟩
    rw [exec, hv]
    exact hrun

/--
**What broadcasts reach.** As long as each broadcast ends, what has been posted is a frame for every
broadcast and every connection that it is for: one that had been registered on the path by then, and
had not been destroyed. And each ends, if none names the ids that it is for.
-/
theorem broadcasts_reach (lib : WebsocketLibrary) (es : List WsServer.Event) :
    (∀ w, exec (WsServer.step lib) {} es = some w → w.spins = false →
      w.posted = (es.foldl (Subscribers.step lib) {}).posted) ∧
    ((∀ e ∈ es, NamesNobody e) → ∃ w, exec (WsServer.step lib) {} es = some w ∧ w.spins = false) := by
  refine ⟨fun w hrun hends => ?_, run_namesNobody rfl⟩
  have hstart : StandsFor ({} : WsServer) {} := ⟨rfl, rfl, fun _ => rfl⟩
  refine (exec_invariant (fun es w => w.spins = false → StandsFor w (es.foldl (Subscribers.step lib) {}))
    (fun _ => hstart) (fun es v e v' _ hv hstep hends => ?_) hrun hends).posted
  rw [List.foldl_append]
  exact StandsFor.step hv hstep hends

end Pion.Proof
