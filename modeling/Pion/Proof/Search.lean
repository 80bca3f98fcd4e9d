import Pion.Uri
import Mathlib.Data.List.TakeWhile

/-!
# Searching

What `std::string::find` and `std::search` find: the first place where the text that is
looked for begins.
-/

namespace Pion.Proof

open Pion

/-- What begins in front of a byte that does not occur in it ends in front of it. -/
theorem prefix_of_not_mem {b u t : Bytes} {a : UInt8} (ha : a ∉ b) (h : b <+: u ++ a :: t) : b <+: u := by
  rcases List.prefix_or_prefix_of_prefix h (List.prefix_append u (a :: t)) with hb | ⟨w, rfl⟩
  · exact hb
  · obtain ⟨v, hv⟩ := h
    rw [List.append_assoc] at hv
    have hwv := List.append_cancel_left hv
    cases w with
    | nil =>
      exact List.prefix_iff_eq_append.mpr (by simp)
    | cons c w =>
      rw [List.cons_append] at hwv
      obtain ⟨rfl, _⟩ := List.cons.inj hwv
      exact absurd (List.mem_append_right u List.mem_cons_self) ha

theorem findSub_front {b s : Bytes} (h : b <+: s) : findSub b s = some 0 := by
  cases s with
  | nil => rw [findSub, if_pos (List.prefix_nil.mp h)]
  | cons c s => rw [findSub, if_pos (List.isPrefixOf_iff_prefix.mpr h)]

theorem findSub_cons {b s : Bytes} {c : UInt8} (h : ¬ b <+: c :: s) :
    findSub b (c :: s) = (findSub b s).map (· + 1) := by
  rw [findSub, if_neg fun hp => h (List.isPrefixOf_iff_prefix.mp hp)]

/-- **What is found is the first place.** -/
theorem findSub_some {b : Bytes} : ∀ {s : Bytes} {i : Nat}, findSub b s = some i →
    b <+: s.drop i ∧ ∀ j, j < i → ¬ b <+: s.drop j := by
  intro s
  induction s with
  | nil =>
    intro i h
    unfold findSub at h
    split at h
    · rename_i hb
      obtain rfl := Option.some.inj h
      exact ⟨by rw [hb]; exact List.nil_prefix, fun j hj => absurd hj (Nat.not_lt_zero j)⟩
    · cases h
  | cons c s ih =>
    intro i h
    by_cases hp : b <+: c :: s
    · rw [findSub_front hp] at h
      obtain rfl := Option.some.inj h
      exact ⟨hp, fun j hj => absurd hj (Nat.not_lt_zero j)⟩
    · rw [findSub_cons hp] at h
      obtain ⟨k, hk, rfl⟩ := Option.map_eq_some_iff.mp h
      obtain ⟨hfound, hfirst⟩ := ih hk
      refine ⟨hfound, ?_⟩
      intro j hj
      cases j with
      | zero => exact hp
      | succ j => exact hfirst j (by omega)

/-- **Nothing is found where there is nothing.** -/
theorem findSub_none {b : Bytes} {s : Bytes} : findSub b s = none ↔ ¬ b <:+: s := by
  induction s with
  | nil =>
    rw [List.infix_nil]
    unfold findSub
    split
    · rename_i hb
      exact ⟨fun h => (by cases h), fun h => absurd hb h⟩
    · rename_i hb
      exact ⟨fun _ => hb, fun _ => rfl⟩
  | cons c s ih =>
    rw [List.infix_cons_iff, not_or]
    by_cases hp : b <+: c :: s
    · rw [findSub_front hp]
      exact ⟨fun h => (by cases h), fun h => absurd hp h.1⟩
    · rw [findSub_cons hp, Option.map_eq_none_iff, ih]
      exact ⟨fun h => ⟨hp, h⟩, fun h => h.2⟩

theorem findSub_length {b s : Bytes} {i : Nat} (h : findSub b s = some i) : b.length ≤ s.length := by
  have hlen := (findSub_some h).1.length_le
  rw [List.length_drop] at hlen
  omega

/-- Behind bytes that are not its first one. -/
theorem findSub_behind {a : UInt8} {u : Bytes} (ha : a ∉ u) (w v : Bytes) :
    findSub (a :: w) (u ++ (a :: w ++ v)) = some u.length := by
  induction u with
  | nil => exact findSub_front (List.prefix_append _ v)
  | cons c u ih =>
    have hne : ¬ a :: w <+: c :: (u ++ (a :: w ++ v)) := by
      intro h
      exact ha ((List.cons_prefix_cons.mp h).1 ▸ List.mem_cons_self)
    rw [List.cons_append, findSub_cons hne, ih fun h => ha (List.mem_cons_of_mem c h)]
    rfl

theorem findSub_not_mem {a : UInt8} {s : Bytes} (ha : a ∉ s) (w : Bytes) :
    findSub (a :: w) s = none :=
  findSub_none.mpr fun h => ha (h.subset List.mem_cons_self)

/-! ## One byte -/

theorem takeWhile_ne_append {a : UInt8} {u : Bytes} (ha : a ∉ u) (v : Bytes) :
    (u ++ a :: v).takeWhile (· ≠ a) = u := by
  have hu : ∀ c ∈ u, decide (c ≠ a) = true := by
    intro c hc
    exact decide_eq_true fun h => ha (h ▸ hc)
  rw [List.takeWhile_append_of_pos hu, List.takeWhile_cons_of_neg (by simp), List.append_nil]

theorem takeWhile_ne_of_not_mem {a : UInt8} {s : Bytes} (ha : a ∉ s) : s.takeWhile (· ≠ a) = s := by
  refine List.takeWhile_eq_self_iff.mpr fun c hc => ?_
  exact decide_eq_true fun h => ha (h ▸ hc)

/-- **The first place of a byte** is behind the bytes that are not it. -/
theorem findFrom_byte (a : UInt8) (s : Bytes) (pos : Nat) :
    findFrom [a] s pos = if a ∈ s.drop pos then some (pos + ((s.drop pos).takeWhile (· ≠ a)).length)
      else none := by
  unfold findFrom
  generalize s.drop pos = t
  by_cases ha : a ∈ t
  · obtain ⟨u, v, rfl, hu⟩ := List.eq_append_cons_of_mem ha
    rw [if_pos ha, takeWhile_ne_append hu v, show u ++ a :: v = u ++ ([a] ++ v) from rfl, findSub_behind hu [] v]
    rfl
  · rw [if_neg ha, findSub_not_mem ha]
    rfl

end Pion.Proof
