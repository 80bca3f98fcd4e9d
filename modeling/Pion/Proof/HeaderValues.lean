import Pion.Proof.ChunkWriter
import Mathlib.Data.List.DropRight

/-!
# The values of a header

`has_header_value` looks for a value among the elements of a header. An element of a list is
trimmed before it is compared; the value of a header without a comma is compared as it stands,
with the whitespace that the parser has left around it.
-/

namespace Pion.Proof

open Pion

/-! ## Trimming -/

theorem trim_eq_rdropWhile (s : Bytes) : trim s = (s.dropWhile isSpace).rdropWhile isSpace := rfl

theorem isSpace_toUpper (c : UInt8) : isSpace (toUpper c) = isSpace c := by
  unfold toUpper
  split
  · rename_i h
    have hle : (32 : UInt8) ≤ c := UInt8.le_iff_toNat_le.mpr (Nat.le_trans (by decide) h.1)
    have hsub : (c - 32).toNat = c.toNat - 32 := UInt8.toNat_sub_of_le c 32 hle
    unfold isSpace
    rw [hsub]
    grind
  · rfl

theorem dropWhile_toUpper (s : Bytes) :
    (s.map toUpper).dropWhile isSpace = (s.dropWhile isSpace).map toUpper := by
  rw [List.dropWhile_map]
  congr 2
  exact funext isSpace_toUpper

theorem trim_toUpper (s : Bytes) : trim (s.map toUpper) = (trim s).map toUpper := by
  unfold trim
  rw [dropWhile_toUpper, ← List.map_reverse, dropWhile_toUpper, List.map_reverse]

/-- Text that begins where dropping stopped begins with nothing to drop. -/
theorem dropWhile_of_prefix {w s : Bytes} (h : w <+: s.dropWhile isSpace) : w.dropWhile isSpace = w := by
  cases w with
  | nil => rfl
  | cons c w =>
    obtain ⟨v, hv⟩ := h
    have hstop : (s.dropWhile isSpace).dropWhile isSpace = s.dropWhile isSpace :=
      List.dropWhile_idempotent isSpace s
    rw [← hv, List.cons_append, List.dropWhile_cons] at hstop
    have hc : ¬ isSpace c = true := by
      intro hc
      rw [if_pos hc] at hstop
      have hlen := congrArg List.length hstop
      have hle := (List.dropWhile_sublist (l := w ++ v) isSpace).length_le
      rw [List.length_cons] at hlen
      omega
    exact List.dropWhile_cons_of_neg hc

theorem trim_trim (s : Bytes) : trim (trim s) = trim s := by
  have hhead : (trim s).dropWhile isSpace = trim s := dropWhile_of_prefix (List.rdropWhile_prefix _ _)
  rw [trim_eq_rdropWhile (trim s), hhead, trim_eq_rdropWhile, List.rdropWhile_idempotent]

/-- What equals a trimmed text is trimmed. -/
theorem trim_of_iequals {v s : Bytes} (h : iequals v s = true) (hv : trim v = v) : trim s = s := by
  have hup : v.map toUpper = s.map toUpper := eq_of_beq h
  have hlen : (trim s).length = s.length := by
    have hs : (trim s).map toUpper = s.map toUpper := by
      rw [← trim_toUpper, ← hup, trim_toUpper, hv]
    simpa using congrArg List.length hs
  have hsub : (trim s).Sublist s :=
    ((List.rdropWhile_prefix _ _).sublist).trans (List.dropWhile_sublist _)
  exact hsub.eq_of_length hlen

/-! ## What `has_header_value` finds -/

/-- An element of a list in this header is the value, up to whitespace and case. -/
def Lists (text v : Bytes) : Prop := ∃ el ∈ text.splitOn comma, iequals v (trim el) = true

instance (text v : Bytes) : Decidable (Lists text v) :=
  inferInstanceAs (Decidable (∃ el ∈ text.splitOn comma, _))

/-- A header of this name has the value as an element. -/
def ListsValue (m : HttpMessage) (key v : Bytes) : Prop :=
  ∃ e ∈ m.headers, iequals e.1 key = true ∧ Lists e.2 v

/-- The headers of a name that have no comma. -/
def singles (m : HttpMessage) (key : Bytes) : List Bytes :=
  (m.headers.equalRange key).filter fun text => comma ∉ text

/-- A list among the headers of the name has the value. -/
def InList (m : HttpMessage) (key v : Bytes) : Prop :=
  ∃ text ∈ m.headers.equalRange key, comma ∈ text ∧ Lists text v

theorem lists_single {text : Bytes} (h : comma ∉ text) (v : Bytes) :
    Lists text v ↔ iequals v (trim text) = true := by
  unfold Lists
  rw [List.splitOn_eq_singleton h]
  simp

theorem hasHeaderValue_iff (m : HttpMessage) (key v : Bytes) :
    m.hasHeaderValue key v = true ↔ InList m key v ∨ ∃ text ∈ singles m key, iequals v text = true := by
  unfold HttpMessage.hasHeaderValue InList singles
  rw [List.any_eq_true]
  constructor
  · rintro ⟨text, hmem, hfound⟩
    by_cases hc : comma ∈ text
    · rw [if_pos (List.contains_iff_mem.mpr hc), List.any_eq_true] at hfound
      exact Or.inl ⟨text, hmem, hc, hfound⟩
    · rw [if_neg (mt List.contains_iff_mem.mp hc)] at hfound
      exact Or.inr ⟨text, List.mem_filter.mpr ⟨hmem, decide_eq_true hc⟩, hfound⟩
  · rintro (⟨text, hmem, hc, hfound⟩ | ⟨text, hmem, hfound⟩)
    · refine ⟨text, hmem, ?_⟩
      rw [if_pos (List.contains_iff_mem.mpr hc), List.any_eq_true]
      exact hfound
    · obtain ⟨hmem, hc⟩ := List.mem_filter.mp hmem
      refine ⟨text, hmem, ?_⟩
      rw [if_neg (mt List.contains_iff_mem.mp (of_decide_eq_true hc))]
      exact hfound

theorem listsValue_iff (m : HttpMessage) (key v : Bytes) :
    ListsValue m key v ↔ InList m key v ∨ ∃ text ∈ singles m key, iequals v (trim text) = true := by
  have hrange : ListsValue m key v ↔ ∃ text ∈ m.headers.equalRange key, Lists text v := by
    unfold ListsValue Dict.equalRange
    simp only [List.mem_map, List.mem_filter]
    constructor
    · rintro ⟨e, he, hkey, hlists⟩
      exact ⟨e.2, ⟨e, ⟨he, hkey⟩, rfl⟩, hlists⟩
    · rintro ⟨_, ⟨e, ⟨he, hkey⟩, rfl⟩, hlists⟩
      exact ⟨e, he, hkey, hlists⟩
  rw [hrange]
  unfold InList singles
  constructor
  · rintro ⟨text, hmem, hlists⟩
    by_cases hc : comma ∈ text
    · exact Or.inl ⟨text, hmem, hc, hlists⟩
    · exact Or.inr ⟨text, List.mem_filter.mpr ⟨hmem, decide_eq_true hc⟩, (lists_single hc v).mp hlists⟩
  · rintro (⟨text, hmem, _, hlists⟩ | ⟨text, hmem, htrim⟩)
    · exact ⟨text, hmem, hlists⟩
    · obtain ⟨hmem, hc⟩ := List.mem_filter.mp hmem
      exact ⟨text, hmem, (lists_single (of_decide_eq_true hc) v).mpr htrim⟩

/--
**When a header with one value is treated like a list.** It is so if a list among the headers
has the value anyway. Otherwise, a value without whitespace around it must not be found in one
header only after trimming, unless another header is the value at once; and a value with
whitespace around it, which no list can have, must not be a header as it stands.
-/
theorem hasHeaderValue_listed_iff (m : HttpMessage) (key v : Bytes) :
    (m.hasHeaderValue key v = true ↔ ListsValue m key v) ↔
      InList m key v ∨
      (trim v = v ∧ ((∃ text ∈ singles m key, iequals v text = true) ∨
        ∀ text ∈ singles m key, iequals v (trim text) = false)) ∨
      (trim v ≠ v ∧ ∀ text ∈ singles m key, iequals v text = false) := by
  rw [hasHeaderValue_iff, listsValue_iff]
  by_cases hlist : InList m key v
  · simp only [hlist, true_or]
  simp only [hlist, false_or]
  by_cases hv : trim v = v
  · -- what is found as it stands is found after trimming
    have htrim : (∃ text ∈ singles m key, iequals v text = true) →
        ∃ text ∈ singles m key, iequals v (trim text) = true := by
      rintro ⟨text, hmem, h⟩
      exact ⟨text, hmem, by rw [trim_of_iequals h hv]; exact h⟩
    have hnone : (∀ text ∈ singles m key, iequals v (trim text) = false) ↔
        ¬ ∃ text ∈ singles m key, iequals v (trim text) = true := by
      simp only [not_exists, not_and, Bool.not_eq_true]
    simp only [hv, ne_eq, not_true_eq_false, false_and, or_false, true_and]
    rw [hnone]
    constructor
    · intro h
      by_cases hs : ∃ text ∈ singles m key, iequals v text = true
      · exact Or.inl hs
      · exact Or.inr (mt h.mpr hs)
    · rintro (hs | hn)
      · exact ⟨htrim, fun _ => hs⟩
      · exact ⟨htrim, fun ht => absurd ht hn⟩
  · have hnone : ¬ ∃ text ∈ singles m key, iequals v (trim text) = true := by
      rintro ⟨text, _, h⟩
      exact hv (trim_of_iequals (BEq.symm h) (trim_trim text))
    simp only [hv, hnone, false_and, false_or, ne_eq, not_false_eq_true, true_and, iff_false,
      not_exists, not_and, Bool.not_eq_true]

/-- The parser leaves the second space behind the colon in the value. -/
theorem hasHeaderValue_untrimmed :
    ¬ ∀ (m : HttpMessage) (key v : Bytes), m.hasHeaderValue key v = true ↔ ListsValue m key v := by
  intro h
  have hlisted : ListsValue { headers := [(str "Upgrade", str " websocket")] } (str "Upgrade")
      (str "websocket") := ⟨_, List.mem_singleton_self _, by decide, by decide⟩
  exact absurd ((h _ _ _).mpr hlisted) (by decide)

end Pion.Proof
