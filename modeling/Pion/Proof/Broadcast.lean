import Pion.WebsocketRegistry

/-!
# Finding the connections of a broadcast

`find_ws_conns` goes through the entries of a path, takes the connections that the broadcast
is for and erases the entries of those that are closed. An entry that the broadcast is not for
is neither taken nor passed, so the loop ends only if there is none; if it ends, it has found
just the right connections (`findWsConns_iff`).
-/

namespace Pion.Proof

open Pion Lib

variable {alive : Nat → Bool} {destIds : List Bytes} {path : Bytes} {registry : WsRegistry}

/-- What `find_ws_conns` should come to: all living connections of the path that the broadcast
is for, in the order of their registration; and a registry without any entries but closed
ones of that path missing. -/
structure Found (registry : WsRegistry) (alive : Nat → Bool) (path : Bytes) (destIds : List Bytes)
    (r : List (Bytes × WsConn) × List Nat) : Prop where
  vec : r.2 = (registry.entries.filter fun e =>
    e.1 = path && destined destIds e.2.id && alive e.2.conn).map (·.2.conn)
  kept : (registry.entries.filter fun e => alive e.2.conn || e.1 ≠ path).Sublist r.1
  old : r.1.Sublist registry.entries

/-! ## The loop -/

theorem findWsConnsLoop_end {c : WsCursor} (h : c.rest = []) (n : Nat) :
    findWsConnsLoop alive destIds n c = some c := by
  cases n with
  | zero => exact if_pos h
  | succ n => exact if_pos h

theorem findWsConnsLoop_pass {c : WsCursor} (h : c.rest ≠ []) (n : Nat) :
    findWsConnsLoop alive destIds (n + 1) c =
      findWsConnsLoop alive destIds n (findWsConnsPass alive destIds c) :=
  if_neg h

/-- Through entries that the broadcast is for. -/
theorem findWsConnsLoop_destined : ∀ (rest before : List (Bytes × WsConn)) (vec : List Nat),
    (∀ e ∈ rest, destined destIds e.2.id = true) →
    findWsConnsLoop alive destIds rest.length { before := before, rest := rest, vec := vec } =
      some { before := before ++ rest.filter (fun e => alive e.2.conn), rest := []
             vec := vec ++ (rest.filter fun e => alive e.2.conn).map (·.2.conn) } := by
  intro rest
  induction rest with
  | nil =>
    intro before vec _
    rw [findWsConnsLoop_end rfl]
    simp
  | cons it rest ih =>
    intro before vec h
    have hit := h it List.mem_cons_self
    rw [List.length_cons, findWsConnsLoop_pass (List.cons_ne_nil it rest)]
    unfold findWsConnsPass
    dsimp only
    rw [if_pos hit]
    cases halive : alive it.2.conn with
    | true =>
      rw [if_pos rfl, ih _ _ fun e he => h e (List.mem_cons_of_mem it he),
        List.filter_cons_of_pos (by exact halive)]
      simp
    | false =>
      rw [if_neg Bool.false_ne_true, ih _ _ fun e he => h e (List.mem_cons_of_mem it he),
        List.filter_cons_of_neg (by simp [halive])]

/-- **An entry that the broadcast is not for is never passed.** -/
theorem findWsConnsLoop_stuck : ∀ (n : Nat) (c : WsCursor),
    (∃ e ∈ c.rest, destined destIds e.2.id = false) → findWsConnsLoop alive destIds n c = none := by
  intro n
  induction n with
  | zero =>
    rintro c ⟨e, he, _⟩
    exact if_neg (List.ne_nil_of_mem he)
  | succ n ih =>
    rintro c ⟨e, he, hid⟩
    rw [findWsConnsLoop_pass (List.ne_nil_of_mem he)]
    refine ih _ ⟨e, ?_, hid⟩
    unfold findWsConnsPass
    cases hrest : c.rest with
    | nil =>
      rw [hrest] at he
      cases he
    | cons it rest =>
      rw [hrest] at he
      dsimp only
      rcases List.mem_cons.mp he with rfl | he
      · rw [if_neg (by simp [hid]), hrest]
        exact List.mem_cons_self
      · split
        · split
          · exact he
          · exact he
        · rw [hrest]
          exact List.mem_cons_of_mem it he

/-! ## The broadcast -/

theorem destined_iff {id : Bytes} : destined destIds id = true ↔ destIds = [] ∨ id ∈ destIds := by
  unfold destined
  simp

/-- What the entries in front of the range and behind it add to a selection of the path. -/
theorem filter_path_of_ne {l : List (Bytes × WsConn)} {p : Bytes × WsConn → Bool}
    (h : ∀ e ∈ l, e.1 ≠ path) :
    l.filter (fun e => e.1 = path && p e) = [] := by
  refine List.filter_eq_nil_iff.mpr fun e he => ?_
  simp [h e he]

theorem filter_kept_of_ne {l : List (Bytes × WsConn)} (h : ∀ e ∈ l, e.1 ≠ path) :
    l.filter (fun e => alive e.2.conn || e.1 ≠ path) = l := by
  refine List.filter_eq_self.mpr fun e he => ?_
  simp [h e he]

/-- If the broadcast is for all entries of the path, they are gone through one by one. -/
theorem findWsConns_destined (h : ∀ e ∈ registry.range path, destined destIds e.2.id = true) :
    findWsConns registry alive path destIds (registry.range path).length =
      some (registry.lower path ++ (registry.range path).filter (fun e => alive e.2.conn) ++ registry.upper path,
        ((registry.range path).filter fun e => alive e.2.conn).map (·.2.conn)) := by
  unfold findWsConns
  rw [findWsConnsLoop_destined _ _ _ h]
  simp

theorem found_destined (h : ∀ e ∈ registry.range path, destined destIds e.2.id = true) :
    Found registry alive path destIds
      (registry.lower path ++ (registry.range path).filter (fun e => alive e.2.conn) ++ registry.upper path,
        ((registry.range path).filter fun e => alive e.2.conn).map (·.2.conn)) := by
  have hlower : ∀ e ∈ registry.lower path, e.1 ≠ path := fun e he => Multimap.key_ne (Or.inl he)
  have hupper : ∀ e ∈ registry.upper path, e.1 ≠ path := fun e he => Multimap.key_ne (Or.inr he)
  constructor
  · have hrange : (registry.range path).filter (fun e => e.1 = path && (destined destIds e.2.id && alive e.2.conn)) =
        (registry.range path).filter fun e => alive e.2.conn := by
      refine List.filter_congr fun e he => ?_
      simp [Multimap.range_key he, h e he]
    simp only [Bool.and_assoc]
    rw [registry.entries_eq path, List.filter_append, List.filter_append, filter_path_of_ne hlower,
      filter_path_of_ne hupper, hrange, List.nil_append, List.append_nil]
  · have hrange : (registry.range path).filter (fun e => alive e.2.conn || e.1 ≠ path) =
        (registry.range path).filter fun e => alive e.2.conn := by
      refine List.filter_congr fun e he => ?_
      simp [Multimap.range_key he]
    rw [registry.entries_eq path, List.filter_append, List.filter_append, filter_kept_of_ne hlower,
      filter_kept_of_ne hupper, hrange, ← List.append_assoc]
  · rw [registry.entries_eq path, List.append_assoc]
    exact (List.Sublist.refl _).append (List.filter_sublist.append (List.Sublist.refl _))

/-- **`find_ws_conns` ends, and has found what it should, just if the broadcast is for all
entries of the path.** Otherwise it never ends. -/
theorem findWsConns_iff (registry : WsRegistry) (alive : Nat → Bool) (path : Bytes)
    (destIds : List Bytes) :
    (∃ n r, findWsConns registry alive path destIds n = some r ∧ Found registry alive path destIds r) ↔
      (destIds = [] ∨ ∀ e ∈ registry.entries, e.1 = path → e.2.id ∈ destIds) := by
  constructor
  · rintro ⟨n, r, hr, _⟩
    by_contra hnot
    push Not at hnot
    obtain ⟨hne, e, he, hpath, hid⟩ := hnot
    have hrange : e ∈ registry.range path := by
      rw [registry.entries_eq path] at he
      rcases List.mem_append.mp he with he | he
      · exact absurd hpath (Multimap.key_ne (Or.inl he))
      rcases List.mem_append.mp he with he | he
      · exact he
      · exact absurd hpath (Multimap.key_ne (Or.inr he))
    have hdest : destined destIds e.2.id = false := by
      rw [Bool.eq_false_iff, Ne, destined_iff]
      exact fun h => h.elim hne hid
    unfold findWsConns at hr
    rw [findWsConnsLoop_stuck n _ ⟨e, hrange, hdest⟩] at hr
    cases hr
  · intro h
    have hdest : ∀ e ∈ registry.range path, destined destIds e.2.id = true := by
      intro e he
      have hmem : e ∈ registry.entries := by
        rw [registry.entries_eq path]
        exact List.mem_append_right _ (List.mem_append_left _ he)
      exact destined_iff.mpr (h.imp_right fun h => h e hmem (Multimap.range_key he))
    exact ⟨_, _, findWsConns_destined hdest, found_destined hdest⟩

/-- One connection on `/w`, and a broadcast on `/w` for somebody else. -/
theorem findWsConns_spins :
    ¬ ∃ n r, findWsConns (registerWsConn .empty (fun _ => true) (str "/w") (str "a") 1) (fun _ => true)
      (str "/w") [str "b"] n = some r := by
  rintro ⟨n, r, hr⟩
  unfold findWsConns at hr
  rw [findWsConnsLoop_stuck n _ ⟨(str "/w", { id := str "a", conn := 1 }), by decide, by decide⟩] at hr
  cases hr

end Pion.Proof
