import Pion.Websocket
import Pion.WebsocketRegistry

/-!
# Broadcasts of a server

`broadcast_websocket`, with the registry as it comes to be: connections are registered when they are
upgraded, and are destroyed at any time. The frame of a broadcast is posted to the strand of each
connection that it is for.

`find_ws_conns` has the mutex of the registry. If it never ends, no other thread can register a
connection or find any.
-/

namespace Pion

open Lib

/-! ## The registry as it is left by `find_ws_conns` -/

theorem findWsConnsPass_sublist (alive : Nat → Bool) (destIds : List Bytes) (c : WsCursor) :
    ((findWsConnsPass alive destIds c).before ++ (findWsConnsPass alive destIds c).rest).Sublist
      (c.before ++ c.rest) := by
  unfold findWsConnsPass
  split
  · exact .refl _
  · rename_i it rest hrest
    rw [hrest]
    split
    · split
      · rw [List.append_assoc, List.singleton_append]
      · exact (List.Sublist.refl _).append (List.sublist_cons_self ..)
    · rw [hrest]

theorem findWsConnsLoop_sublist (alive : Nat → Bool) (destIds : List Bytes) (n : Nat) {c d : WsCursor}
    (h : findWsConnsLoop alive destIds n c = some d) :
    d.rest = [] ∧ d.before.Sublist (c.before ++ c.rest) := by
  have hend : ∀ {c : WsCursor}, c.rest = [] → c.rest = [] ∧ c.before.Sublist (c.before ++ c.rest) :=
    fun hrest => ⟨hrest, List.sublist_append_left ..⟩
  induction n generalizing c with
  | zero =>
    obtain ⟨hrest, h⟩ := Option.ite_none_right_eq_some.mp h
    obtain rfl := Option.some.inj h
    exact hend hrest
  | succ n ih =>
    unfold findWsConnsLoop at h
    split at h
    · rename_i hrest
      obtain rfl := Option.some.inj h
      exact hend hrest
    · obtain ⟨hrest, hsub⟩ := ih h
      exact ⟨hrest, hsub.trans (findWsConnsPass_sublist alive destIds c)⟩

/-- Entries are erased, and the others stay in order. -/
theorem findWsConns_sublist {registry : WsRegistry} {alive : Nat → Bool} {path : Bytes}
    {destIds : List Bytes} {n : Nat} {r : List (Bytes × WsConn) × List Nat}
    (h : findWsConns registry alive path destIds n = some r) : r.1.Sublist registry.entries := by
  obtain ⟨c, hc, rfl⟩ := Option.map_eq_some_iff.mp h
  have hsub := (findWsConnsLoop_sublist alive destIds n hc).2
  rw [registry.entries_eq path, ← List.append_assoc]
  exact hsub.append (.refl _)

/-! ## The server -/

structure WsServer where
  registry : WsRegistry := .empty
  /-- The connections that have been destroyed. -/
  expired : List Nat := []
  /-- What has been posted to the strands of connections. -/
  posted : List (Nat × Bytes) := []
  /-- A `find_ws_conns` goes on for ever, with the mutex held. -/
  spins : Bool := false

namespace WsServer

inductive Event where
  | register (path id : Bytes) (conn : Nat)
  /-- The last that refers to the connection is gone. -/
  | expire (conn : Nat)
  /-- `broadcast_websocket`. -/
  | broadcast (path message : Bytes) (frameType : FrameType) (destIds : List Bytes)
  deriving DecidableEq

def alive (w : WsServer) (conn : Nat) : Bool := conn ∉ w.expired

/-- `websocket::broadcast`. -/
def broadcastTo (lib : WebsocketLibrary) (conns : List Nat) (message : Bytes) (frameType : FrameType) :
    List (Nat × Bytes) :=
  conns.map fun conn => (conn, lib.makeHeader frameType message.length ++ message)

/-- `broadcast_websocket`. A pass for each entry is enough for `find_ws_conns`, if it ends. -/
def broadcastWebsocket (lib : WebsocketLibrary) (w : WsServer) (path message : Bytes) (frameType : FrameType)
    (destIds : List Bytes) : WsServer :=
  match h : findWsConns w.registry w.alive path destIds (w.registry.range path).length with
  | none => { w with spins := true }
  | some r =>
    { w with
      registry := ⟨r.1, w.registry.sorted.sublist (findWsConns_sublist h)⟩
      posted := w.posted ++ broadcastTo lib r.2 message frameType }

def step (lib : WebsocketLibrary) (w : WsServer) : Event → Option WsServer
  | .register path id conn =>
    if w.spins then none
    else some { w with registry := registerWsConn w.registry w.alive path id conn }
  | .expire conn => some { w with expired := conn :: w.expired }
  | .broadcast path message frameType destIds =>
    if w.spins then none else some (w.broadcastWebsocket lib path message frameType destIds)

end WsServer

end Pion
