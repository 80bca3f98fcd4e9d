import Mathlib.Data.Nat.Basic

/-!
# Numbers as strings of digits

What a program that reads a number digit by digit computes from the digits that
another one wrote. The reader is any left fold; it is enough to know what it makes
of one digit more.
-/

namespace Pion.Lib

variable {γ : Type} {b : Nat}

/-- Every digit is the digit of a number below the base. -/
theorem mem_toDigits (hb : 1 < b) : ∀ (n : Nat) (c : Char), c ∈ Nat.toDigits b n →
    ∃ d, d < b ∧ c = d.digitChar := by
  intro n
  induction n using Nat.strongRecOn with
  | ind n ih =>
    intro c hc
    rcases Nat.lt_or_ge n b with hlt | hge
    · rw [Nat.toDigits_of_lt_base hlt, List.mem_singleton] at hc
      exact ⟨n, hlt, hc⟩
    · rw [Nat.toDigits_of_base_le hb hge, List.mem_append, List.mem_singleton] at hc
      rcases hc with hc | hc
      · exact ih (n / b) (Nat.div_lt_self (by omega) hb) c hc
      · exact ⟨n % b, Nat.mod_lt n (by omega), hc⟩

/-- **A fold reads back the number that was written**, in whatever form `e` it builds it up. -/
theorem foldl_toDigits (hb : 1 < b) {f : γ → Char → γ} {e : Nat → γ}
    (hf : ∀ n d, d < b → f (e n) d.digitChar = e (n * b + d)) :
    ∀ n, (Nat.toDigits b n).foldl f (e 0) = e n := by
  intro n
  induction n using Nat.strongRecOn with
  | ind n ih =>
    rcases Nat.lt_or_ge n b with hlt | hge
    · rw [Nat.toDigits_of_lt_base hlt, List.foldl_cons, List.foldl_nil, hf 0 n hlt, Nat.zero_mul,
        Nat.zero_add]
    · have hdiv : n / b < n := Nat.div_lt_self (by omega) hb
      rw [Nat.toDigits_of_base_le hb hge, List.foldl_append, ih (n / b) hdiv, List.foldl_cons,
        List.foldl_nil, hf (n / b) (n % b) (Nat.mod_lt n (by omega)), Nat.div_add_mod' n b]

end Pion.Lib
