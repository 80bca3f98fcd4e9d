import Pion.Proof.Routes
import Mathlib.Data.List.TakeWhile

/-!
# The most specific resource

`find_submatch` looks a path up, then what is in front of its last slash, and so on. Whatever
was registered, in whatever order, it ends with the longest registered resource that is the path
or a path above it.
-/

namespace Pion.Proof

open Pion

variable {α : Type}

/-! ## Paths above a path -/

/-- The path itself, or what is in front of one of its slashes. -/
def Above (k path : Bytes) : Prop := k = path ∨ k ++ [slash] <+: path

instance (k path : Bytes) : Decidable (Above k path) := inferInstanceAs (Decidable (_ ∨ _))

theorem Above.prefix {k path : Bytes} (h : Above k path) : k <+: path := by
  rcases h with rfl | h
  · exact List.prefix_refl k
  · exact (List.prefix_append k [slash]).trans h

/-- Paths above one path are told apart by their lengths. -/
theorem Above.eq_of_length {k k' path : Bytes} (h : Above k path) (h' : Above k' path)
    (hlen : k.length = k'.length) : k = k' := by
  rw [List.prefix_iff_eq_take.mp h.prefix, List.prefix_iff_eq_take.mp h'.prefix, hlen]

theorem beforeLastSlash_append (s : Bytes) {w : Bytes} (hw : slash ∉ w) :
    beforeLastSlash (s ++ slash :: w) = some s := by
  have hback : (s ++ slash :: w).reverse.dropWhile (· ≠ slash) = slash :: s.reverse := by
    have hpos : ∀ c ∈ w.reverse, decide (c ≠ slash) = true := by
      intro c hc
      exact decide_eq_true fun h => hw (h ▸ List.mem_reverse.mp hc)
    rw [List.reverse_append, List.reverse_cons, List.append_assoc, List.dropWhile_append_of_pos hpos]
    rfl
  unfold beforeLastSlash
  rw [hback]
  dsimp only
  rw [List.reverse_reverse]

theorem beforeLastSlash_of_not_mem {st : Bytes} (h : slash ∉ st) : beforeLastSlash st = none := by
  have hall : st.reverse.dropWhile (· ≠ slash) = [] := by
    rw [List.dropWhile_eq_nil_iff]
    intro c hc
    exact decide_eq_true fun he => h (he ▸ List.mem_reverse.mp hc)
  unfold beforeLastSlash
  rw [hall]

/-- A path with a slash has a last one. -/
theorem exists_last_slash {st : Bytes} (h : slash ∈ st) : ∃ s w, st = s ++ slash :: w ∧ slash ∉ w := by
  obtain ⟨u, v, hrev, hu⟩ := List.eq_append_cons_of_mem (List.mem_reverse.mpr h)
  refine ⟨v.reverse, u.reverse, ?_, fun hmem => hu (List.mem_reverse.mp hmem)⟩
  rw [← List.reverse_reverse st, hrev, List.reverse_append, List.reverse_cons, List.append_assoc]
  rfl

theorem beforeLastSlash_some {st s : Bytes} (h : beforeLastSlash st = some s) :
    ∃ w, st = s ++ slash :: w := by
  by_cases hmem : slash ∈ st
  · obtain ⟨s', w, rfl, hw⟩ := exists_last_slash hmem
    rw [beforeLastSlash_append s' hw] at h
    obtain rfl := Option.some.inj h
    exact ⟨w, rfl⟩
  · rw [beforeLastSlash_of_not_mem hmem] at h
    cases h

/-- **One step up.** -/
theorem above_iff {k st : Bytes} :
    Above k st ↔ k = st ∨ ∃ s, beforeLastSlash st = some s ∧ Above k s := by
  constructor
  · rintro (rfl | ⟨v, rfl⟩)
    · exact Or.inl rfl
    · rw [List.append_assoc]
      refine Or.inr ?_
      by_cases hv : slash ∈ v
      · obtain ⟨v', w, rfl, hw⟩ := exists_last_slash hv
        refine ⟨k ++ slash :: v', ?_, Or.inr ⟨v', by rw [List.append_assoc]; rfl⟩⟩
        have hlast := beforeLastSlash_append (k ++ slash :: v') hw
        rw [List.append_assoc] at hlast
        exact hlast
      · exact ⟨k, beforeLastSlash_append k hv, Or.inl rfl⟩
  · rintro (rfl | ⟨s, hs, hk⟩)
    · exact Or.inl rfl
    · obtain ⟨w, rfl⟩ := beforeLastSlash_some hs
      rcases hk with rfl | hk
      · exact Or.inr ⟨w, by rw [List.append_assoc]; rfl⟩
      · exact Or.inr (hk.trans (List.prefix_append s (slash :: w)))

/-! ## The search -/

/-- What the loop of `find_submatch` does, pass by pass. -/
inductive Searches (map : List (Bytes × α)) : Bytes → Option α → Prop
  | found {st : Bytes} {v : α} : map.lookup st = some v → Searches map st (some v)
  | shorten {st s : Bytes} {out : Option α} : map.lookup st = none → beforeLastSlash st = some s →
      Searches map s out → Searches map st out
  | ends {st : Bytes} : map.lookup st = none → beforeLastSlash st = none → Searches map st none

/-- **It ends.** -/
theorem findSubmatchLoop_searches (map : List (Bytes × α)) : ∀ (n : Nat) (st : Bytes), st.length < n →
    Searches map st (findSubmatchLoop map n st) := by
  intro n
  induction n with
  | zero => exact fun st h => absurd h (Nat.not_lt_zero _)
  | succ n ih =>
    intro st hn
    unfold findSubmatchLoop
    cases hl : map.lookup st with
    | some v => exact .found hl
    | none =>
      dsimp only
      cases hs : beforeLastSlash st with
      | none => exact .ends hl hs
      | some s =>
        obtain ⟨w, rfl⟩ := beforeLastSlash_some hs
        rw [List.length_append, List.length_cons] at hn
        exact .shorten hl hs (ih s (by omega))

theorem findSubmatch_searches (map : List (Bytes × α)) (path : Bytes) :
    Searches map path (findSubmatch map path) :=
  findSubmatchLoop_searches map _ path (Nat.lt_succ_self _)

/-- What a search finds is the entry of the longest key above the path. -/
theorem Searches.longest {map : List (Bytes × α)} {path : Bytes} {out : Option α}
    (h : Searches map path out) :
    (∀ v, out = some v → ∃ k, Above k path ∧ map.lookup k = some v ∧
      ∀ k', Above k' path → map.lookup k' ≠ none → k'.length ≤ k.length) ∧
    (out = none → ∀ k, Above k path → map.lookup k = none) := by
  induction h with
  | @found st v hl =>
    refine ⟨fun w hw => ⟨st, Or.inl rfl, by rw [hl, hw], ?_⟩, fun h => (by cases h)⟩
    exact fun k' hk' _ => hk'.prefix.length_le
  | @shorten st s out hl hs _ ih =>
    obtain ⟨hsome, hnone⟩ := ih
    have hup : ∀ k, Above k st → map.lookup k ≠ none → Above k s := by
      intro k hk hne
      rcases above_iff.mp hk with rfl | ⟨s', hs', hk⟩
      · exact absurd hl hne
      · rw [hs] at hs'
        obtain rfl := Option.some.inj hs'
        exact hk
    constructor
    · intro v hv
      obtain ⟨k, hk, hkv, hlong⟩ := hsome v hv
      exact ⟨k, above_iff.mpr (Or.inr ⟨s, hs, hk⟩), hkv, fun k' hk' hne => hlong k' (hup k' hk' hne) hne⟩
    · intro hv k hk
      by_contra hne
      exact hne (hnone hv k (hup k hk hne))
  | @ends st hl hs =>
    refine ⟨fun v hv => (by cases hv), fun _ k hk => ?_⟩
    rcases above_iff.mp hk with rfl | ⟨s, hs', _⟩
    · exact hl
    · rw [hs] at hs'
      cases hs'

theorem findSubmatch_congr {map map' : List (Bytes × α)} (h : ∀ k, map.lookup k = map'.lookup k)
    (path : Bytes) : findSubmatch map path = findSubmatch map' path := by
  have hloop : ∀ n st, findSubmatchLoop map n st = findSubmatchLoop map' n st := by
    intro n
    induction n with
    | zero => exact fun _ => rfl
    | succ n ih =>
      intro st
      unfold findSubmatchLoop
      rw [h st]
      simp only [ih]
  exact hloop _ path

/-! ## The five maps -/

/-- Which of the maps a method has. -/
inductive MethodMap where
  | get | post | put | delete | options
  deriving DecidableEq

def methodMap (method : Bytes) : Option MethodMap :=
  if requestMethodGet = method ∨ requestMethodHead = method then some .get
  else if requestMethodPost = method then some .post
  else if requestMethodPut = method then some .put
  else if requestMethodDelete = method then some .delete
  else if requestMethodOptions = method then some .options
  else none

/-- The entries of a map. -/
def entriesOf (maps : MethodMaps α) : MethodMap → List (Bytes × α)
  | .get => maps.get
  | .post => maps.post
  | .put => maps.put
  | .delete => maps.delete
  | .options => maps.options

theorem chooseMapByMethod_eq (method : Bytes) (maps : MethodMaps α) :
    chooseMapByMethod method maps = match methodMap method with
      | some i => .ok (entriesOf maps i)
      | none => .error (.invalidHttpMethod method) := by
  unfold chooseMapByMethod methodMap
  split_ifs <;> rfl

theorem entriesOf_update {method : Bytes} {i : MethodMap} (h : methodMap method = some i)
    (maps : MethodMaps α) (map : List (Bytes × α)) (j : MethodMap) :
    entriesOf (maps.update method map) j = if j = i then map else entriesOf maps j := by
  unfold methodMap at h
  unfold MethodMaps.update
  split_ifs at h ⊢ <;> cases h <;> cases j <;> first | rfl | contradiction

/-! ## Registrations -/

/-- What a handler is registered for. -/
structure Route (α : Type) where
  method : Bytes
  resource : Bytes
  target : α

/-- The map and the key that the target is entered under. -/
def Route.key (r : Route α) : Option MethodMap × Bytes :=
  (methodMap r.method, stripTrailingSlash r.resource)

/-- One registration in the maps. -/
def addRoute (maps : MethodMaps α) (r : Route α) : Option (MethodMaps α) :=
  (chooseMapByMethod r.method maps).toOption.bind fun map =>
    (emplace map (stripTrailingSlash r.resource) r.target).map (maps.update r.method)

/-- The maps hold these routes, and no others. -/
structure HoldsRoutes (routes : List (Route α)) (maps : MethodMaps α) : Prop where
  known : ∀ r ∈ routes, methodMap r.method ≠ none
  distinct : (routes.map Route.key).Nodup
  lookup : ∀ i k v, (entriesOf maps i).lookup k = some v ↔
    ∃ r ∈ routes, r.key = (some i, k) ∧ r.target = v

theorem holdsRoutes_empty : HoldsRoutes ([] : List (Route α)) {} where
  known := fun _ h => by cases h
  distinct := List.nodup_nil
  lookup := fun i k v => by cases i <;> simp [entriesOf]

/-- The keys that are free. -/
theorem HoldsRoutes.lookup_none {routes : List (Route α)} {maps : MethodMaps α} (h : HoldsRoutes routes maps)
    {i : MethodMap} {k : Bytes} :
    (entriesOf maps i).lookup k = none ↔ (some i, k) ∉ routes.map Route.key := by
  rw [Option.eq_none_iff_forall_ne_some, List.mem_map]
  constructor
  · rintro hne ⟨r, hr, hkey⟩
    exact hne r.target ((h.lookup i k r.target).mpr ⟨r, hr, hkey, rfl⟩)
  · rintro hmem v hv
    obtain ⟨r, hr, hkey, _⟩ := (h.lookup i k v).mp hv
    exact hmem ⟨r, hr, hkey⟩

theorem addRoute_none {maps : MethodMaps α} {r : Route α} (h : methodMap r.method = none) :
    addRoute maps r = none := by
  unfold addRoute
  rw [chooseMapByMethod_eq, h]
  rfl

theorem addRoute_some {maps : MethodMaps α} {r : Route α} {i : MethodMap}
    (h : methodMap r.method = some i) :
    addRoute maps r = (emplace (entriesOf maps i) (stripTrailingSlash r.resource) r.target).map
      (maps.update r.method) := by
  unfold addRoute
  rw [chooseMapByMethod_eq, h]
  rfl

/-- **What a registration needs**: a method that is known and a key that is free. -/
theorem HoldsRoutes.addRoute_iff {routes : List (Route α)} {maps : MethodMaps α}
    (h : HoldsRoutes routes maps) (r : Route α) : (∃ maps', addRoute maps r = some maps') ↔
      methodMap r.method ≠ none ∧ r.key ∉ routes.map Route.key := by
  cases hi : methodMap r.method with
  | none => simp [addRoute_none hi]
  | some i =>
    have hfree : (entriesOf maps i).lookup (stripTrailingSlash r.resource) = none ↔
        r.key ∉ routes.map Route.key := by
      rw [h.lookup_none, Route.key, hi]
    rw [addRoute_some hi, ← hfree]
    unfold emplace
    cases (entriesOf maps i).lookup (stripTrailingSlash r.resource) with
    | none => simp
    | some v => simp

/-- **What it does**: there is one more route. -/
theorem HoldsRoutes.addRoute {routes : List (Route α)} {maps maps' : MethodMaps α}
    (h : HoldsRoutes routes maps) {r : Route α} (hadd : addRoute maps r = some maps') :
    HoldsRoutes (routes ++ [r]) maps' := by
  obtain ⟨hknown, hfree⟩ := (h.addRoute_iff r).mp ⟨maps', hadd⟩
  obtain ⟨i, hi⟩ := Option.ne_none_iff_exists'.mp hknown
  rw [addRoute_some hi] at hadd
  obtain ⟨map, hmap, rfl⟩ := Option.map_eq_some_iff.mp hadd
  refine ⟨?_, ?_, ?_⟩
  · intro q hq
    rcases List.mem_append.mp hq with hq | hq
    · exact h.known q hq
    · rw [List.mem_singleton.mp hq]
      exact hknown
  · rw [List.map_append, List.nodup_append]
    refine ⟨h.distinct, List.pairwise_singleton _ _, ?_⟩
    intro a ha b hb he
    rw [List.map_cons, List.map_nil, List.mem_singleton] at hb
    exact hfree (hb ▸ he ▸ ha)
  · intro j k v
    have hnew : (∃ q ∈ routes ++ [r], q.key = (some j, k) ∧ q.target = v) ↔
        (∃ q ∈ routes, q.key = (some j, k) ∧ q.target = v) ∨ (r.key = (some j, k) ∧ r.target = v) := by
      simp only [List.mem_append, List.mem_singleton, or_and_right, exists_or, exists_eq_left]
    have hkey : r.key = (some i, stripTrailingSlash r.resource) := by rw [Route.key, hi]
    rw [hnew, ← h.lookup, entriesOf_update hi, hkey, Prod.mk.injEq, Option.some.injEq]
    by_cases hj : j = i
    · subst hj
      rw [if_pos rfl, emplace_lookup hmap]
      by_cases hk : k = stripTrailingSlash r.resource
      · rw [if_pos hk, hk, emplace_new hmap]
        simp
      · rw [if_neg hk]
        simp [Ne.symm hk]
    · rw [if_neg hj]
      simp [Ne.symm hj]

/-! ## Which route is found -/

/-- The route is for the method, and its resource is the path or above it. -/
def Route.Serves (r : Route α) (method path : Bytes) : Prop :=
  methodMap r.method = methodMap method ∧ Above (stripTrailingSlash r.resource) path

/-- The search ends, and finds the target of the longest of the routes that serve the path. -/
structure FindsLongest (routes : List (Route α)) (method path : Bytes) (map : List (Bytes × α)) :
    Prop where
  ends : Searches map path (findSubmatch map path)
  found : ∀ v, findSubmatch map path = some v ↔ ∃ r ∈ routes, r.Serves method path ∧ r.target = v ∧
    ∀ q ∈ routes, q.Serves method path →
      (stripTrailingSlash q.resource).length ≤ (stripTrailingSlash r.resource).length
  missing : findSubmatch map path = none ↔ ∀ r ∈ routes, ¬ r.Serves method path

theorem chooseMapByMethod_ok {method : Bytes} {maps : MethodMaps α} {map : List (Bytes × α)}
    (h : chooseMapByMethod method maps = .ok map) :
    ∃ i, methodMap method = some i ∧ map = entriesOf maps i := by
  rw [chooseMapByMethod_eq] at h
  cases hi : methodMap method with
  | none =>
    rw [hi] at h
    cases h
  | some i =>
    rw [hi] at h
    exact ⟨i, rfl, (Except.ok.inj h).symm⟩

theorem HoldsRoutes.findsLongest {routes : List (Route α)} {maps : MethodMaps α}
    (h : HoldsRoutes routes maps) {method : Bytes} {map : List (Bytes × α)}
    (hmap : chooseMapByMethod method maps = .ok map) (path : Bytes) :
    FindsLongest routes method path map := by
  obtain ⟨i, hi, rfl⟩ := chooseMapByMethod_ok hmap
  obtain ⟨hsome, hnone⟩ := (findSubmatch_searches (entriesOf maps i) path).longest
  have hentry : ∀ r ∈ routes, r.Serves method path →
      (entriesOf maps i).lookup (stripTrailingSlash r.resource) = some r.target := by
    intro r hr hserves
    exact (h.lookup i _ _).mpr ⟨r, hr, by rw [Route.key, hserves.1, hi], rfl⟩
  have hroute : ∀ k v, Above k path → (entriesOf maps i).lookup k = some v →
      ∃ r ∈ routes, r.Serves method path ∧ r.target = v ∧ stripTrailingSlash r.resource = k := by
    intro k v hk hv
    obtain ⟨r, hr, hkey, rfl⟩ := (h.lookup i k v).mp hv
    obtain ⟨hmethod, rfl⟩ := Prod.mk.inj hkey
    exact ⟨r, hr, ⟨hmethod.trans hi.symm, hk⟩, rfl, rfl⟩
  refine ⟨findSubmatch_searches _ path, ?_, ?_⟩
  · intro v
    constructor
    · intro hv
      obtain ⟨k, hk, hkv, hlong⟩ := hsome v hv
      obtain ⟨r, hr, hserves, htarget, rfl⟩ := hroute k v hk hkv
      refine ⟨r, hr, hserves, htarget, ?_⟩
      intro q hq hqs
      exact hlong _ hqs.2 (by rw [hentry q hq hqs]; exact Option.some_ne_none _)
    · rintro ⟨r, hr, hserves, rfl, hlongest⟩
      have hr' := hentry r hr hserves
      cases hout : findSubmatch (entriesOf maps i) path with
      | none =>
        rw [hnone hout _ hserves.2] at hr'
        cases hr'
      | some w =>
        -- the key that was found is as long as this one, and above the same path
        obtain ⟨k, hk, hkw, hlong⟩ := hsome w hout
        obtain ⟨q, hq, hqs, _, rfl⟩ := hroute k w hk hkw
        have hle := hlong _ hserves.2 (by rw [hr']; exact Option.some_ne_none _)
        have hsame := hk.eq_of_length hserves.2 (Nat.le_antisymm (hlongest q hq hqs) hle)
        rw [hsame, hr'] at hkw
        exact hkw.symm
  · constructor
    · intro hout r hr hserves
      have hr' := hentry r hr hserves
      rw [hnone hout _ hserves.2] at hr'
      cases hr'
    · intro hnot
      rw [Option.eq_none_iff_forall_ne_some]
      intro v hv
      obtain ⟨k, hk, hkv, _⟩ := hsome v hv
      obtain ⟨r, hr, hserves, _⟩ := hroute k v hk hkv
      exact hnot r hr hserves

/-- The order of the routes makes no difference to the entries. -/
theorem HoldsRoutes.lookup_perm {routes routes' : List (Route α)} {maps maps' : MethodMaps α}
    (h : HoldsRoutes routes maps) (h' : HoldsRoutes routes' maps') (hperm : routes.Perm routes')
    (i : MethodMap) (k : Bytes) : (entriesOf maps i).lookup k = (entriesOf maps' i).lookup k := by
  refine Option.ext fun v => ?_
  rw [h.lookup, h'.lookup]
  simp only [hperm.mem_iff]

/-- What is looked up for a request. -/
def foundFor (maps : MethodMaps α) (method path : Bytes) : Except Exn (Option α) :=
  (chooseMapByMethod method maps).map fun map => findSubmatch map path

theorem HoldsRoutes.foundFor_perm {routes routes' : List (Route α)} {maps maps' : MethodMaps α}
    (h : HoldsRoutes routes maps) (h' : HoldsRoutes routes' maps') (hperm : routes.Perm routes')
    (method path : Bytes) : foundFor maps method path = foundFor maps' method path := by
  unfold foundFor
  rw [chooseMapByMethod_eq, chooseMapByMethod_eq]
  cases methodMap method with
  | none => rfl
  | some i => exact congrArg Except.ok (findSubmatch_congr (h.lookup_perm h' hperm i) path)

/-! ## The server -/

/-- A call of `add_handler` or of `add_payload_handler`. -/
inductive RouteCall where
  | handler (r : Route Handler)
  | payload (r : Route PayloadHandlerCreator)

namespace RouteCall

def apply (server : HttpServer) : RouteCall → Except RegistrationError HttpServer
  | .handler r => server.addHandler r.method r.resource r.target
  | .payload r => server.addPayloadHandler r.method r.resource r.target

def handler? : RouteCall → Option (Route Handler)
  | .handler r => some r
  | .payload _ => none

def payload? : RouteCall → Option (Route PayloadHandlerCreator)
  | .handler _ => none
  | .payload r => some r

end RouteCall

/-- All the calls, one after the other, until one throws. -/
def applyAll (server : HttpServer) (calls : List RouteCall) : Except RegistrationError HttpServer :=
  calls.foldlM RouteCall.apply server

theorem addHandler_ok {server server' : HttpServer} {r : Route Handler} :
    (RouteCall.handler r).apply server = .ok server' ↔
      ∃ maps, addRoute server.handlers r = some maps ∧ server' = { server with handlers := maps } := by
  show server.addHandler r.method r.resource r.target = .ok server' ↔ _
  unfold HttpServer.addHandler addRoute
  cases chooseMapByMethod r.method server.handlers with
  | error e => simp [Except.toOption]
  | ok map =>
    dsimp only [Except.toOption]
    rw [Option.bind_some]
    cases emplace map (stripTrailingSlash r.resource) r.target with
    | none => simp
    | some map' => simp [eq_comm]

theorem addPayloadHandler_ok {server server' : HttpServer} {r : Route PayloadHandlerCreator} :
    (RouteCall.payload r).apply server = .ok server' ↔
      ∃ maps, addRoute server.payloads r = some maps ∧ server' = { server with payloads := maps } := by
  show server.addPayloadHandler r.method r.resource r.target = .ok server' ↔ _
  unfold HttpServer.addPayloadHandler addRoute
  cases chooseMapByMethod r.method server.payloads with
  | error e => simp [Except.toOption]
  | ok map =>
    dsimp only [Except.toOption]
    rw [Option.bind_some]
    cases emplace map (stripTrailingSlash r.resource) r.target with
    | none => simp
    | some map' => simp [eq_comm]

/-- The server holds what these calls have registered. -/
structure HoldsCalls (calls : List RouteCall) (server : HttpServer) : Prop where
  handlers : HoldsRoutes (calls.filterMap RouteCall.handler?) server.handlers
  payloads : HoldsRoutes (calls.filterMap RouteCall.payload?) server.payloads

/-- A server without handlers. -/
structure NoRoutes (server : HttpServer) : Prop where
  handlers : server.handlers = {}
  payloads : server.payloads = {}

theorem NoRoutes.holdsCalls {server : HttpServer} (h : NoRoutes server) : HoldsCalls [] server where
  handlers := h.handlers ▸ holdsRoutes_empty
  payloads := h.payloads ▸ holdsRoutes_empty

/-- One call. -/
theorem HoldsCalls.apply {calls : List RouteCall} {server server' : HttpServer}
    (h : HoldsCalls calls server) {c : RouteCall} (hc : c.apply server = .ok server') :
    HoldsCalls (calls ++ [c]) server' := by
  cases c with
  | handler r =>
    obtain ⟨maps, hadd, rfl⟩ := addHandler_ok.mp hc
    constructor
    · rw [List.filterMap_append]
      exact h.handlers.addRoute hadd
    · rw [List.filterMap_append]
      exact (List.append_nil _).symm ▸ h.payloads
  | payload r =>
    obtain ⟨maps, hadd, rfl⟩ := addPayloadHandler_ok.mp hc
    constructor
    · rw [List.filterMap_append]
      exact (List.append_nil _).symm ▸ h.handlers
    · rw [List.filterMap_append]
      exact h.payloads.addRoute hadd

theorem applyAll_snoc {server server' : HttpServer} {calls : List RouteCall} {c : RouteCall} :
    applyAll server (calls ++ [c]) = .ok server' ↔
      ∃ s, applyAll server calls = .ok s ∧ c.apply s = .ok server' := by
  unfold applyAll
  rw [List.foldlM_append]
  cases calls.foldlM RouteCall.apply server with
  | error e => exact ⟨fun h => (by cases h), fun ⟨s, hs, _⟩ => (by cases hs)⟩
  | ok s =>
    show (RouteCall.apply s c >>= pure) = Except.ok server' ↔ _
    rw [bind_pure]
    simp

/-- **All calls.** -/
theorem NoRoutes.applyAll {server server' : HttpServer} (h : NoRoutes server) {calls : List RouteCall}
    (hcalls : applyAll server calls = .ok server') : HoldsCalls calls server' := by
  induction calls using List.reverseRecOn generalizing server' with
  | nil =>
    obtain rfl := Except.ok.inj hcalls
    exact h.holdsCalls
  | append_singleton calls c ih =>
    obtain ⟨s, hs, hc⟩ := applyAll_snoc.mp hcalls
    exact (ih hs).apply hc

/-- The methods are known and no key is taken twice. -/
structure RoutesFit (routes : List (Route α)) : Prop where
  known : ∀ r ∈ routes, methodMap r.method ≠ none
  distinct : (routes.map Route.key).Nodup

theorem HoldsRoutes.fit {routes : List (Route α)} {maps : MethodMaps α} (h : HoldsRoutes routes maps) :
    RoutesFit routes := ⟨h.known, h.distinct⟩

theorem RoutesFit.perm {routes routes' : List (Route α)} (h : RoutesFit routes)
    (hperm : routes.Perm routes') : RoutesFit routes' where
  known := fun r hr => h.known r (hperm.mem_iff.mpr hr)
  distinct := (hperm.map Route.key).nodup_iff.mp h.distinct

theorem RoutesFit.front {routes : List (Route α)} {r : Route α} (h : RoutesFit (routes ++ [r])) :
    RoutesFit routes ∧ methodMap r.method ≠ none ∧ r.key ∉ routes.map Route.key := by
  have hkeys := h.distinct
  rw [List.map_append, List.nodup_append] at hkeys
  obtain ⟨hfront, _, hne⟩ := hkeys
  refine ⟨⟨fun q hq => h.known q (List.mem_append_left _ hq), hfront⟩, ?_, ?_⟩
  · exact h.known r (List.mem_append_right _ (List.mem_singleton_self r))
  · exact fun hmem => hne _ hmem _ (List.mem_singleton_self _) rfl

/-- **Calls that fit succeed**, in any order. -/
theorem NoRoutes.exists_applyAll {server : HttpServer} (h : NoRoutes server) {calls : List RouteCall}
    (hhandlers : RoutesFit (calls.filterMap RouteCall.handler?))
    (hpayloads : RoutesFit (calls.filterMap RouteCall.payload?)) :
    ∃ server', Pion.Proof.applyAll server calls = .ok server' := by
  induction calls using List.reverseRecOn with
  | nil => exact ⟨server, rfl⟩
  | append_singleton calls c ih =>
    rw [List.filterMap_append] at hhandlers hpayloads
    cases c with
    | handler r =>
      obtain ⟨hfront, hfree⟩ := RoutesFit.front (r := r) hhandlers
      obtain ⟨s, hs⟩ := ih hfront (by rw [show List.filterMap RouteCall.payload? [.handler r] = [] from rfl,
        List.append_nil] at hpayloads; exact hpayloads)
      obtain ⟨maps, hadd⟩ := ((h.applyAll hs).handlers.addRoute_iff r).mpr hfree
      exact ⟨_, applyAll_snoc.mpr ⟨s, hs, addHandler_ok.mpr ⟨maps, hadd, rfl⟩⟩⟩
    | payload r =>
      obtain ⟨hfront, hfree⟩ := RoutesFit.front (r := r) hpayloads
      obtain ⟨s, hs⟩ := ih (by rw [show List.filterMap RouteCall.handler? [.payload r] = [] from rfl,
        List.append_nil] at hhandlers; exact hhandlers) hfront
      obtain ⟨maps, hadd⟩ := ((h.applyAll hs).payloads.addRoute_iff r).mpr hfree
      exact ⟨_, applyAll_snoc.mpr ⟨s, hs, addPayloadHandler_ok.mpr ⟨maps, hadd, rfl⟩⟩⟩

/--
**Routing picks the most specific resource.** After any registrations that succeed, the search
for a request's path ends and finds the handler of the longest resource that is the path or above
it, for request handlers and for payload handlers. In any other order the registrations succeed
as well, and every request finds the same.
-/
theorem findSubmatch_mostSpecific (server server' : HttpServer) (hempty : NoRoutes server)
    (calls : List RouteCall) (hcalls : applyAll server calls = .ok server') :
    (∀ method map resource, chooseMapByMethod method server'.handlers = .ok map →
      FindsLongest (calls.filterMap RouteCall.handler?) method (stripTrailingSlash resource) map) ∧
    (∀ method map resource, chooseMapByMethod method server'.payloads = .ok map →
      FindsLongest (calls.filterMap RouteCall.payload?) method (stripTrailingSlash resource) map) ∧
    ∀ calls', calls.Perm calls' → ∃ server'', applyAll server calls' = .ok server'' ∧
      ∀ method path, foundFor server'.handlers method path = foundFor server''.handlers method path ∧
        foundFor server'.payloads method path = foundFor server''.payloads method path := by
  have hholds := hempty.applyAll hcalls
  refine ⟨fun method map resource hmap => hholds.handlers.findsLongest hmap _,
    fun method map resource hmap => hholds.payloads.findsLongest hmap _, ?_⟩
  intro calls' hperm
  have hhandlers := hperm.filterMap RouteCall.handler?
  have hpayloads := hperm.filterMap RouteCall.payload?
  obtain ⟨server'', hserver⟩ := hempty.exists_applyAll (hholds.handlers.fit.perm hhandlers)
    (hholds.payloads.fit.perm hpayloads)
  have hholds' := hempty.applyAll hserver
  refine ⟨server'', hserver, fun method path => ⟨?_, ?_⟩⟩
  · exact hholds.handlers.foundFor_perm hholds'.handlers hhandlers method path
  · exact hholds.payloads.foundFor_perm hholds'.payloads hpayloads method path

/-- Four resources, and a path that is under three of them. -/
def someRoutes : List RouteCall :=
  [.handler ⟨str "GET", str "/", ⟨0⟩⟩, .handler ⟨str "GET", str "/a/b/", ⟨1⟩⟩,
    .handler ⟨str "HEAD", str "/a", ⟨2⟩⟩, .handler ⟨str "GET", str "/a/bc", ⟨3⟩⟩]

theorem findSubmatch_someRoutes : ∃ server', applyAll {} someRoutes = .ok server' ∧
    ∃ map, chooseMapByMethod (str "GET") server'.handlers = .ok map ∧
      FindsLongest (someRoutes.filterMap RouteCall.handler?) (str "GET") (str "/a/b/c") map := by
  refine ⟨_, rfl, _, rfl, ?_⟩
  exact (findSubmatch_mostSpecific {} _ ⟨rfl, rfl⟩ someRoutes rfl).1 (str "GET") _ (str "/a/b/c/") rfl

end Pion.Proof
