import Pion.Proof.Reassembly

/-!
# Registered handlers are found

A handler is registered under its resource without a trailing slash. Plain requests are
looked up under their resource without a trailing slash, so they find it. WebSocket upgrade
requests are looked up under their resource as it was sent.

`routesUpgrades_iff` says for which resources this makes a difference: those that end in a
slash, unless the handler happens to be registered under the resource with its slash, too.
A later registration helps only if it is one under the resource with its slash and one more;
none does harm: an entry that is in a map stays as it is.
-/

namespace Pion.Proof

open Pion Lib

/-! ## One registration -/

theorem emplace_lookup {α : Type} {map map' : List (Bytes × α)} {key : Bytes} {v : α}
    (h : emplace map key v = some map') (k : Bytes) :
    map'.lookup k = if k = key then some v else map.lookup k := by
  unfold emplace at h
  split at h
  · cases h
  · injection h with h
    rw [← h, List.lookup_cons]
    by_cases hk : k = key
    · rw [if_pos hk, beq_iff_eq.mpr hk]
    · rw [if_neg hk, beq_eq_false_iff_ne.mpr hk]

theorem emplace_new {α : Type} {map map' : List (Bytes × α)} {key : Bytes} {v : α}
    (h : emplace map key v = some map') : map.lookup key = none := by
  unfold emplace at h
  split at h
  · cases h
  · rename_i hnone
    exact Option.not_isSome_iff_eq_none.mp hnone

/-- An entry stays as it is when another one is added. -/
theorem emplace_keeps {α : Type} {map map' : List (Bytes × α)} {key k : Bytes} {v w : α}
    (h : emplace map key v = some map') (hk : map.lookup k = some w) : map'.lookup k = some w := by
  rw [emplace_lookup h]
  by_cases he : k = key
  · rw [he, emplace_new h] at hk
    cases hk
  · rw [if_neg he, hk]

/-- The three events, each with its map. -/
theorem chooseWsMap_cases {server : HttpServer} {event : Bytes} {map : List (Bytes × Handler)}
    (h : server.chooseWsMap event = .ok map) :
    (event = str "WSOPEN" ∧ map = server.wsopenHandlers) ∨
      (event = str "WSMESSAGE" ∧ map = server.wsmessageHandlers) ∨
      (event = str "WSCLOSE" ∧ map = server.wscloseHandlers) := by
  unfold HttpServer.chooseWsMap at h
  split at h
  · rename_i he
    exact Or.inl ⟨he.symm, (Except.ok.inj h).symm⟩
  split at h
  · rename_i he
    exact Or.inr (Or.inl ⟨he.symm, (Except.ok.inj h).symm⟩)
  split at h
  · rename_i he
    exact Or.inr (Or.inr ⟨he.symm, (Except.ok.inj h).symm⟩)
  · cases h

/-- The map of an event is the one that is written. -/
theorem chooseWsMap_updateWsMap {server : HttpServer} {event : Bytes} {map : List (Bytes × Handler)}
    (h : server.chooseWsMap event = .ok map) (map' : List (Bytes × Handler)) :
    (server.updateWsMap event map').chooseWsMap event = .ok map' := by
  rcases chooseWsMap_cases h with ⟨rfl, _⟩ | ⟨rfl, _⟩ | ⟨rfl, _⟩
  · rfl
  · rfl
  · rfl

theorem chooseWsMap_other {server : HttpServer} {event event' : Bytes}
    {map map' map₁ : List (Bytes × Handler)} (h : server.chooseWsMap event = .ok map)
    (h' : server.chooseWsMap event' = .ok map₁) (hne : event ≠ event') :
    (server.updateWsMap event map').chooseWsMap event' = .ok map₁ := by
  rcases chooseWsMap_cases h with ⟨rfl, _⟩ | ⟨rfl, _⟩ | ⟨rfl, _⟩ <;>
    rcases chooseWsMap_cases h' with ⟨rfl, rfl⟩ | ⟨rfl, rfl⟩ | ⟨rfl, rfl⟩ <;>
    first
    | rfl
    | exact absurd rfl hne

theorem addWebsocketHandler_ok {server server' : HttpServer} {event r : Bytes} {h : Handler}
    (hadd : server.addWebsocketHandler event r h = .ok server') :
    ∃ map map', server.chooseWsMap event = .ok map ∧ emplace map (stripTrailingSlash r) h = some map' ∧
      server' = server.updateWsMap event map' := by
  unfold HttpServer.addWebsocketHandler at hadd
  split at hadd
  · cases hadd
  · rename_i map hmap
    split at hadd
    · cases hadd
    · rename_i map' hmap'
      exact ⟨map, map', hmap, hmap', (Except.ok.inj hadd).symm⟩

/-! ## Any number of registrations -/

/-- What a server becomes by one more registration. -/
inductive Registration : HttpServer → HttpServer → Prop
  | handler {s s' : HttpServer} (method r : Bytes) (h : Handler) :
      s.addHandler method r h = .ok s' → Registration s s'
  | payload {s s' : HttpServer} (method r : Bytes) (creator : PayloadHandlerCreator) :
      s.addPayloadHandler method r creator = .ok s' → Registration s s'
  | websocket {s s' : HttpServer} (event r : Bytes) (h : Handler) :
      s.addWebsocketHandler event r h = .ok s' → Registration s s'

/-- What a server becomes by any number of registrations. -/
inductive Registrations : HttpServer → HttpServer → Prop
  | refl (s : HttpServer) : Registrations s s
  | tail {s t u : HttpServer} : Registrations s t → Registration t u → Registrations s u

/-- The map of an event answers `h` for this resource. -/
def Finds (server : HttpServer) (event r : Bytes) (h : Handler) : Prop :=
  ∃ map, server.chooseWsMap event = .ok map ∧ map.lookup r = some h

/-- **No registration takes a handler away.** -/
theorem Registration.finds {s s' : HttpServer} {event r : Bytes} {h : Handler}
    (hreg : Registration s s') (hf : Finds s event r h) : Finds s' event r h := by
  obtain ⟨map, hmap, hr⟩ := hf
  cases hreg with
  | handler method r' h' hadd =>
    -- the maps of the events are not touched
    refine ⟨map, ?_, hr⟩
    rw [← hmap]
    unfold HttpServer.addHandler at hadd
    split at hadd
    · cases hadd
    · dsimp only at hadd
      split at hadd
      · cases hadd
      · rw [← Except.ok.inj hadd]
        rfl
  | payload method r' creator hadd =>
    refine ⟨map, ?_, hr⟩
    rw [← hmap]
    unfold HttpServer.addPayloadHandler at hadd
    split at hadd
    · cases hadd
    · dsimp only at hadd
      split at hadd
      · cases hadd
      · rw [← Except.ok.inj hadd]
        rfl
  | websocket event' r' h' hadd =>
    obtain ⟨map₁, map', hmap₁, hnew, rfl⟩ := addWebsocketHandler_ok hadd
    by_cases he : event' = event
    · subst he
      rw [hmap] at hmap₁
      obtain rfl := Except.ok.inj hmap₁
      exact ⟨map', chooseWsMap_updateWsMap hmap map', emplace_keeps hnew hr⟩
    · exact ⟨map, chooseWsMap_other hmap₁ hmap he, hr⟩

theorem Registrations.finds {s s' : HttpServer} {event r : Bytes} {h : Handler}
    (hreg : Registrations s s') (hf : Finds s event r h) : Finds s' event r h := by
  induction hreg with
  | refl => exact hf
  | tail _ hstep ih => exact hstep.finds ih

/-! ## Routing -/

/-- The handler that a websocket has for an event, other than a default one. -/
def Dispatch.handlerFor (event : Bytes) : Dispatch → Option Handler
  | .websocket wsopen wsmessage wsclose =>
    if str "WSOPEN" = event then wsopen
    else if str "WSMESSAGE" = event then wsmessage
    else if str "WSCLOSE" = event then wsclose
    else none
  | _ => none

/-- A valid WebSocket upgrade request for this resource. -/
structure UpgradeRequest (r : Bytes) (m : HttpRequest) : Prop where
  valid : m.isValid = true
  upgrade : isWebsocketUpgrade m = true
  resource : m.resource = r

/-- Every upgrade request for `r` is routed to a websocket whose handler for the event is `h`. -/
def RoutesTo (server : HttpServer) (event r : Bytes) (h : Handler) : Prop :=
  ∀ (conn : TcpConnection) (m : HttpRequest), UpgradeRequest r m →
    ∃ d, (server.handleRequest conn .ok m).2 = .ok d ∧ Dispatch.handlerFor event d = some h

/-- What `handle_request` does with an upgrade request. -/
theorem handleRequest_upgrade {r : Bytes} {m : HttpRequest} (hm : UpgradeRequest r m)
    (server : HttpServer) (conn : TcpConnection) :
    (server.handleRequest conn .ok m).2 = .ok (if (server.findWsHandlers r).1 then
      .websocket (server.wsopenHandlers.lookup r) (server.wsmessageHandlers.lookup r)
        (server.wscloseHandlers.lookup r) else .notFound) := by
  unfold HttpServer.handleRequest
  rw [if_neg (by simp [hm.valid]), if_pos hm.upgrade, hm.resource]
  dsimp only
  split
  · rfl
  · rfl

/-- An upgrade request to any resource. -/
def upgradeFor (r : Bytes) : HttpRequest :=
  { resource := r, isValid := true,
    headers := [(str "Upgrade", str "websocket"), (str "Sec-WebSocket-Version", str "13"),
      (headerConnection, str "Upgrade"), (str "Host", str "localhost"),
      (str "Sec-WebSocket-Key", str "dGhlIHNhbXBsZSBub25jZQ==")] }

theorem upgradeFor_ok (r : Bytes) : UpgradeRequest r (upgradeFor r) := by
  have h : isWebsocketUpgrade (upgradeFor []) = true := by decide +kernel
  exact ⟨rfl, h, rfl⟩

/-- **Upgrade requests are routed by the resource as it stands.** -/
theorem routesTo_iff (server : HttpServer) (event r : Bytes) (h : Handler) :
    RoutesTo server event r h ↔ Finds server event r h := by
  constructor
  · intro hroutes
    obtain ⟨d, hd, hfor⟩ := hroutes {} (upgradeFor r) (upgradeFor_ok r)
    rw [handleRequest_upgrade (upgradeFor_ok r)] at hd
    rw [← Except.ok.inj hd] at hfor
    split at hfor
    · unfold Dispatch.handlerFor at hfor
      dsimp only at hfor
      unfold Finds HttpServer.chooseWsMap
      split at hfor
      · rename_i he
        exact ⟨_, if_pos he, hfor⟩
      rename_i h1
      split at hfor
      · rename_i he
        exact ⟨_, by rw [if_neg h1, if_pos he], hfor⟩
      rename_i h2
      split at hfor
      · rename_i he
        exact ⟨_, by rw [if_neg h1, if_neg h2, if_pos he], hfor⟩
      · cases hfor
    · cases hfor
  · rintro ⟨map, hmap, hr⟩ conn m hm
    refine ⟨_, handleRequest_upgrade hm server conn, ?_⟩
    unfold HttpServer.findWsHandlers
    dsimp only
    rcases chooseWsMap_cases hmap with ⟨rfl, rfl⟩ | ⟨rfl, rfl⟩ | ⟨rfl, rfl⟩
    · rw [if_pos (by rw [hr]; rfl)]
      exact hr
    · rw [if_pos (by rw [hr]; simp)]
      exact hr
    · rw [if_pos (by rw [hr]; simp)]
      exact hr

theorem stripTrailingSlash_eq_self {r : Bytes} : stripTrailingSlash r = r ↔ r.getLast? ≠ some slash := by
  unfold stripTrailingSlash
  split
  · rename_i hlast
    refine ⟨fun he => ?_, fun hn => absurd hlast hn⟩
    have hne : r ≠ [] := by
      rintro rfl
      cases hlast
    have hlen := congrArg List.length he
    rw [List.length_dropLast] at hlen
    have := List.length_pos_iff.mpr hne
    omega
  · rename_i hlast
    exact ⟨fun _ => hlast, fun _ => rfl⟩

/--
**Which WebSocket registrations can be found.** From the registration on, every upgrade
request for the same resource is routed to its handler, if and only if the resource does not
end in a slash, or the event had this handler for the resource with its slash before.
-/
theorem routesUpgrades_iff (server server' : HttpServer) (event r : Bytes) (h : Handler)
    (hadd : server.addWebsocketHandler event r h = .ok server') :
    (∀ later, Registrations server' later → RoutesTo later event r h) ↔
      r.getLast? ≠ some slash ∨ Finds server event r h := by
  obtain ⟨map, map', hmap, hnew, rfl⟩ := addWebsocketHandler_ok hadd
  have hmap' := chooseWsMap_updateWsMap hmap map'
  rw [← stripTrailingSlash_eq_self]
  constructor
  · intro hroutes
    obtain ⟨map₁, hmap₁, hr⟩ := (routesTo_iff _ event r h).mp (hroutes _ (.refl _))
    rw [hmap'] at hmap₁
    obtain rfl := Except.ok.inj hmap₁
    rw [emplace_lookup hnew] at hr
    by_cases he : r = stripTrailingSlash r
    · exact Or.inl he.symm
    · rw [if_neg he] at hr
      exact Or.inr ⟨map, hmap, hr⟩
  · intro hcond later hlater
    refine (routesTo_iff later event r h).mpr (hlater.finds ⟨map', hmap', ?_⟩)
    rw [emplace_lookup hnew]
    by_cases he : r = stripTrailingSlash r
    · exact if_pos he
    · obtain ⟨map₁, hmap₁, hr⟩ := hcond.resolve_left fun hs => he hs.symm
      rw [hmap] at hmap₁
      obtain rfl := Except.ok.inj hmap₁
      rw [if_neg he]
      exact hr

/-- A server with one handler. -/
def mirrorServer : HttpServer := { wsopenHandlers := [(str "/mirror", ⟨1⟩)] }

theorem routesUpgrades_mirror :
    ({} : HttpServer).addWebsocketHandler (str "WSOPEN") (str "/mirror") ⟨1⟩ = .ok mirrorServer ∧
      RoutesTo mirrorServer (str "WSOPEN") (str "/mirror") ⟨1⟩ := by
  have hadd : ({} : HttpServer).addWebsocketHandler (str "WSOPEN") (str "/mirror") ⟨1⟩ =
      .ok mirrorServer := rfl
  refine ⟨hadd, (routesUpgrades_iff {} mirrorServer (str "WSOPEN") (str "/mirror") ⟨1⟩ hadd).mpr ?_
    mirrorServer (.refl mirrorServer)⟩
  exact Or.inl (by decide)

/-- Registered under `/mirror/`, a handler is not found by a request for `/mirror/`. -/
theorem routesUpgrades_slash :
    ∃ server', ({} : HttpServer).addWebsocketHandler (str "WSOPEN") (str "/mirror/") ⟨1⟩ = .ok server' ∧
      ¬ RoutesTo server' (str "WSOPEN") (str "/mirror/") ⟨1⟩ := by
  refine ⟨mirrorServer, rfl, fun h => ?_⟩
  obtain ⟨map, hmap, hr⟩ := (routesTo_iff _ _ _ _).mp h
  obtain rfl := Except.ok.inj hmap
  exact absurd hr (by decide)

end Pion.Proof
