import Pion.Lib.Scanner

/-!
# Texts with separators

A loop that reads a text with separators in it works on one piece at a time. What it
does to the whole text is then a matter of `List.splitOn`. The rules here take a fact
from one piece to the text, and a fact from one symbol to a piece that is collected as
long as it fits.
-/

namespace Pion.Lib

variable {β : Type}

/-! ## From one piece to the text -/

/-- A text is a piece, or a piece, a separator and a text. -/
theorem split_induction [DecidableEq β] (a : β) {motive : List β → Prop}
    (last : ∀ w, a ∉ w → motive w)
    (next : ∀ w text, a ∉ w → motive text → motive (w ++ a :: text)) : ∀ text, motive text := by
  intro text
  induction hn : text.length using Nat.strongRecOn generalizing text with
  | ind n ih =>
    by_cases ha : a ∈ text
    · obtain ⟨w, rest, rfl, hw⟩ := List.eq_append_cons_of_mem ha
      rw [List.length_append, List.length_cons] at hn
      exact next w rest hw (ih rest.length (by omega) rest rfl)
    · exact last text ha

/-- What separators do not matter to holds of a text if it holds of its pieces. -/
theorem forall_mem_splitOn [DecidableEq β] {a : β} {p : β → Prop} (ha : p a) (text : List β) :
    (∀ w ∈ text.splitOn a, ∀ c ∈ w, p c) ↔ ∀ c ∈ text, p c := by
  induction text using split_induction a with
  | last w hw => simp [List.splitOn_eq_singleton hw]
  | next w text hw ih =>
    rw [List.splitOn_append_cons_self_of_not_mem hw, List.forall_mem_cons, ih,
      List.forall_mem_append, List.forall_mem_cons]
    exact ⟨fun h => ⟨h.1, ha, h.2⟩, fun h => ⟨h.1, h.2.2⟩⟩

/-! ## From one symbol to a piece -/

/--
A loop that collects a word as long as it fits, and fails at the first symbol that does not:
it collects the word if the word fits, and fails otherwise.
-/
theorem take_or_fail {α : Type} {fits : List β → Prop} (failed : α → Prop) {w : List β}
    (f : List β → List β → α) (rest : List β) (hnil : fits [])
    (hfront : ∀ u v, fits (u ++ v) → fits u)
    (htake : ∀ u c v, w = u ++ c :: v → fits (u ++ [c]) → ∀ cs, f u (c :: cs) = f (u ++ [c]) cs)
    (hfail : ∀ u c v, w = u ++ c :: v → fits u → ¬ fits (u ++ [c]) → ∀ cs, failed (f u (c :: cs))) :
    (fits w → f [] (w ++ rest) = f w rest) ∧ (¬ fits w → failed (f [] (w ++ rest))) := by
  have hgo : ∀ v u, w = u ++ v → fits u →
      (fits w → f u (v ++ rest) = f w rest) ∧ (¬ fits w → failed (f u (v ++ rest))) := by
    intro v
    induction v with
    | nil =>
      intro u hw hu
      rw [List.append_nil] at hw
      rw [hw, List.nil_append]
      exact ⟨fun _ => rfl, fun h => absurd hu h⟩
    | cons c v ih =>
      intro u hw hu
      have hw' : w = (u ++ [c]) ++ v := by rw [hw, List.append_assoc, List.singleton_append]
      rw [List.cons_append]
      by_cases hc : fits (u ++ [c])
      · rw [htake u c v hw hc]
        exact ih (u ++ [c]) hw' hc
      · refine ⟨fun h => absurd (hfront (u ++ [c]) v (hw' ▸ h)) hc, fun _ => ?_⟩
        exact hfail u c v hw hu hc (v ++ rest)
  exact hgo w [] rfl hnil

end Pion.Lib
