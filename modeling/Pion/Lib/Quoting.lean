import Mathlib.Data.List.Basic

/-!
# Quoted text

Text with strings in quotes. An escape inside a string takes away the meaning of the symbol behind
it, so that a string goes on to the first quote that has not been escaped.

A word without quotes stays inside the string that it is put into, whatever escapes it has, as long as
there is something else behind it: an escape at its end falls on that.
-/

namespace Pion.Lib

variable {α : Type} [DecidableEq α]

/-- What has been seen of a text. -/
structure Quoting (α : Type) where
  /-- The strings so far, without their quotes. -/
  strings : List (List α) := []
  /-- The string that is open, and whether its last symbol is an escape. -/
  current : Option (List α × Bool) := none
  deriving DecidableEq

namespace Quoting

/-- One symbol more. -/
def step (quote escape : α) (s : Quoting α) (c : α) : Quoting α :=
  match s.current with
  | none => if c = quote then { s with current := some ([], false) } else s
  | some (w, true) => { s with current := some (w ++ [c], false) }
  | some (w, false) =>
    if c = quote then { strings := s.strings ++ [w], current := none }
    else { s with current := some (w ++ [c], c = escape) }

def scan (quote escape : α) (s : Quoting α) (text : List α) : Quoting α := text.foldl (step quote escape) s

/-- The strings of a text, if it does not end inside one. -/
def stringsOf (quote escape : α) (text : List α) : Option (List (List α)) :=
  let s := scan quote escape {} text
  if s.current = none then some s.strings else none

variable {quote escape : α}

theorem scan_append (s : Quoting α) (a b : List α) :
    scan quote escape s (a ++ b) = scan quote escape (scan quote escape s a) b := List.foldl_append

/-- Inside a string, a symbol that is no quote is one more of its symbols. -/
theorem step_inside {s : Quoting α} {w : List α} {escaped : Bool} (h : s.current = some (w, escaped)) {c : α}
    (hc : c ≠ quote) :
    step quote escape s c = { s with current := some (w ++ [c], !escaped && decide (c = escape)) } := by
  unfold step
  rw [h]
  cases escaped with
  | true => simp
  | false => simp [hc]

/-- **A word without quotes stays inside**, and whatever is behind it is not escaped. -/
theorem scan_inside {c : α} (hquote : c ≠ quote) (hescape : c ≠ escape) :
    ∀ (w : List α) (s : Quoting α) (front : List α) (escaped : Bool), quote ∉ w →
      s.current = some (front, escaped) →
      scan quote escape s (w ++ [c]) = { s with current := some (front ++ w ++ [c], false) } := by
  intro w
  induction w with
  | nil =>
    intro s front escaped _ hs
    show step quote escape s c = _
    rw [step_inside hs hquote]
    simp [hescape]
  | cons d w ih =>
    intro s front escaped hw hs
    have hd : d ≠ quote := fun h => hw (h ▸ List.mem_cons_self)
    show scan quote escape (step quote escape s d) (w ++ [c]) = _
    rw [step_inside hs hd, ih _ (front ++ [d]) _ (fun h => hw (List.mem_cons_of_mem d h)) rfl]
    simp

theorem scan_outside {s : Quoting α} (h : s.current = none) : ∀ {w : List α}, quote ∉ w →
    scan quote escape s w = s := by
  intro w
  induction w with
  | nil => intro _; rfl
  | cons c w ih =>
    intro hw
    have hc : c ≠ quote := fun hc => hw (hc ▸ List.mem_cons_self)
    have hstep : step quote escape s c = s := by
      unfold step
      rw [h]
      exact if_neg hc
    show scan quote escape (step quote escape s c) w = s
    rw [hstep]
    exact ih fun hq => hw (List.mem_cons_of_mem c hq)

/-- **A string is put together from words**: what is behind the front quote, a word from elsewhere, and
the rest of the string, to its last symbol. -/
theorem scan_string {s : Quoting α} {front : List α} (h : s.current = some (front, false)) {w : List α}
    (hw : quote ∉ w) {c : α} (hquote : c ≠ quote) (hescape : c ≠ escape) {rest : List α} (hrest : quote ∉ rest) :
    scan quote escape s (w ++ [c] ++ quote :: rest) =
      { strings := s.strings ++ [front ++ w ++ [c]], current := none } := by
  rw [scan_append, scan_inside hquote hescape w s front false hw h]
  have hclose : step quote escape { s with current := some (front ++ w ++ [c], false) } quote =
      { strings := s.strings ++ [front ++ w ++ [c]], current := none } := if_pos rfl
  show scan quote escape (step quote escape _ quote) rest = _
  rw [hclose]
  exact scan_outside rfl hrest

end Quoting

end Pion.Lib
