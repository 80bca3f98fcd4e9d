import Mathlib.Data.List.Pairwise

/-!
# Multimaps

A multimap keeps its entries in the order of their keys, and those of one key in the order
in which they were inserted. The entries of a key are therefore a range: `lower`, `range` and
`upper` are what is in front of it, the range itself and what is behind it.
-/

namespace Pion.Lib

/-- Entries in the order of their keys. -/
structure Multimap (κ β : Type) [LE κ] where
  entries : List (κ × β)
  sorted : entries.Pairwise fun a b => a.1 ≤ b.1

namespace Multimap

variable {κ β : Type} [LE κ]

def empty : Multimap κ β := ⟨[], .nil⟩

/-- The entries that pass a test. -/
def filter (m : Multimap κ β) (p : κ × β → Bool) : Multimap κ β where
  entries := m.entries.filter p
  sorted := m.sorted.filter p

/-- Once a sorted list is past a test that only smaller keys pass, no entry passes it. -/
theorem not_of_mem_dropWhile {p : κ × β → Bool}
    (hp : ∀ a b : κ × β, a.1 ≤ b.1 → p b = true → p a = true)
    {l : List (κ × β)} (hl : l.Pairwise fun a b => a.1 ≤ b.1) {e : κ × β} (h : e ∈ l.dropWhile p) :
    p e = false := by
  induction l with
  | nil => cases h
  | cons a l ih =>
    obtain ⟨ha, hl⟩ := List.pairwise_cons.mp hl
    rw [List.dropWhile_cons] at h
    split at h
    · exact ih hl h
    · rename_i hpa
      rcases List.mem_cons.mp h with rfl | he
      · exact Bool.eq_false_iff.mpr hpa
      · exact Bool.eq_false_iff.mpr fun hpe => hpa (hp a e (ha e he) hpe)

variable [LT κ] [DecidableLT κ]

/-- The entries in front of `lower_bound(k)`. -/
def lower (m : Multimap κ β) (k : κ) : List (κ × β) := m.entries.takeWhile (·.1 < k)

/-- The entries from `lower_bound(k)` to `upper_bound(k)`. -/
def range (m : Multimap κ β) (k : κ) : List (κ × β) :=
  (m.entries.dropWhile (·.1 < k)).takeWhile fun e => !decide (k < e.1)

/-- The entries from `upper_bound(k)` on. -/
def upper (m : Multimap κ β) (k : κ) : List (κ × β) :=
  (m.entries.dropWhile (·.1 < k)).dropWhile fun e => !decide (k < e.1)

theorem entries_eq (m : Multimap κ β) (k : κ) :
    m.entries = m.lower k ++ (m.range k ++ m.upper k) := by
  unfold lower range upper
  rw [List.takeWhile_append_dropWhile, List.takeWhile_append_dropWhile]

theorem lower_lt {m : Multimap κ β} {k : κ} {e : κ × β} (h : e ∈ m.lower k) : e.1 < k :=
  of_decide_eq_true (List.all_eq_true.mp List.all_takeWhile e h)

section order

variable [Std.IsLinearOrder κ] [Std.LawfulOrderLT κ]

theorem not_lt_of_mem_dropWhile {m : Multimap κ β} {k : κ} {e : κ × β}
    (h : e ∈ m.entries.dropWhile (·.1 < k)) : ¬ e.1 < k := by
  have hp : ∀ a b : κ × β, a.1 ≤ b.1 → decide (b.1 < k) = true → decide (a.1 < k) = true := by
    intro a b hab hb
    exact decide_eq_true (Std.lt_of_le_of_lt hab (of_decide_eq_true hb))
  exact of_decide_eq_false (not_of_mem_dropWhile hp m.sorted h)

theorem range_key {m : Multimap κ β} {k : κ} {e : κ × β} (h : e ∈ m.range k) : e.1 = k := by
  have hge := not_lt_of_mem_dropWhile (List.takeWhile_subset _ h)
  have hle : ¬ k < e.1 := by simpa using List.all_eq_true.mp List.all_takeWhile e h
  exact Std.le_antisymm (Std.not_lt.mp hle) (Std.not_lt.mp hge)

theorem lt_upper {m : Multimap κ β} {k : κ} {e : κ × β} (h : e ∈ m.upper k) : k < e.1 := by
  have hp : ∀ a b : κ × β, a.1 ≤ b.1 → (!decide (k < b.1)) = true → (!decide (k < a.1)) = true := by
    intro a b hab hb
    simp only [Bool.not_eq_true', decide_eq_false_iff_not] at hb ⊢
    exact fun hka => hb (Std.lt_of_lt_of_le hka hab)
  have hsorted := m.sorted.sublist (List.dropWhile_sublist (l := m.entries) (·.1 < k))
  simpa using not_of_mem_dropWhile hp hsorted h

/-- The entries of the other keys are those in front of the range and behind it. -/
theorem key_ne {m : Multimap κ β} {k : κ} {e : κ × β} (h : e ∈ m.lower k ∨ e ∈ m.upper k) :
    e.1 ≠ k := by
  rintro rfl
  rcases h with h | h
  · exact Std.lt_irrefl (lower_lt h)
  · exact Std.lt_irrefl (lt_upper h)

/-- A new entry goes behind those of its key. -/
def insert (m : Multimap κ β) (k : κ) (v : β) : Multimap κ β where
  entries := m.lower k ++ (m.range k ++ (k, v) :: m.upper k)
  sorted := by
    have hsorted := m.sorted
    rw [m.entries_eq k] at hsorted
    obtain ⟨hl, hru, hlru⟩ := List.pairwise_append.mp hsorted
    obtain ⟨hr, hu, hru'⟩ := List.pairwise_append.mp hru
    have hmem : ∀ e ∈ m.range k ++ (k, v) :: m.upper k, e = (k, v) ∨ e ∈ m.range k ++ m.upper k := by
      intro e he
      rcases List.mem_append.mp he with he | he
      · exact Or.inr (List.mem_append_left _ he)
      · exact (List.mem_cons.mp he).imp_right (List.mem_append_right _)
    refine List.pairwise_append.mpr ⟨hl, List.pairwise_append.mpr ⟨hr, ?_, ?_⟩, ?_⟩
    · exact List.pairwise_cons.mpr ⟨fun e he => Std.le_of_lt (lt_upper he), hu⟩
    · intro a ha b hb
      rcases List.mem_cons.mp hb with rfl | hb
      · exact Std.le_of_eq (range_key ha)
      · exact hru' a ha b hb
    · intro a ha b hb
      rcases hmem b hb with rfl | hb
      · exact Std.le_of_lt (lower_lt ha)
      · exact hlru a ha b hb

/-- A new entry comes behind the others of its key, whatever they are selected by. -/
theorem filter_insert [DecidableEq κ] (m : Multimap κ β) (k : κ) (v : β) (key : κ) (p : κ × β → Bool) :
    (m.insert k v).entries.filter (fun e => e.1 = key && p e) =
      m.entries.filter (fun e => e.1 = key && p e) ++ [(k, v)].filter (fun e => e.1 = key && p e) := by
  have hsplit : (m.insert k v).entries = m.lower k ++ (m.range k ++ ([(k, v)] ++ m.upper k)) := rfl
  rw [hsplit, m.entries_eq k]
  simp only [List.filter_append]
  rcases eq_or_ne k key with rfl | hne
  · have hupper : (m.upper k).filter (fun e => e.1 = k && p e) = [] := by
      refine List.filter_eq_nil_iff.mpr fun e he => ?_
      simp [key_ne (Or.inr he)]
    rw [hupper, List.append_nil, List.append_nil, List.append_assoc]
  · have hnew : [(k, v)].filter (fun e => e.1 = key && p e) = [] := by simp [hne]
    rw [hnew, List.nil_append, List.append_nil]

end order

end Multimap

end Pion.Lib
