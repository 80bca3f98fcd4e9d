import Mathlib.Data.List.Basic

/-!
# Incremental scanners

A scanner reads a buffer from the front. At each position it may take one symbol
or a whole span, or it may stop with an answer and leave the rest unread. When
the buffer runs out before it stops, it hands back its state and waits for the
next buffer.

The question every such loop has to answer is whether the places where the
buffers happen to end can be seen from the outside. `SplitsOn` is the local
condition, one step at a time, and `run_append` is the global consequence: a
scanner that splits reads `a ++ b` exactly as it reads `a` and then `b`.
-/

namespace Pion.Lib

/-- What one step of a scanner does with the buffer in front of it. -/
inductive Action (σ ρ β : Type) where
  /-- Go on from a new state with what is left of the buffer. -/
  | next (s : σ) (rest : List β)
  /-- Stop with an answer, leaving `rest` unread. -/
  | stop (r : ρ) (s : σ) (rest : List β)

/-- What a pass over a whole buffer leaves behind. -/
inductive Outcome (σ ρ β : Type) where
  /-- The buffer is used up and the scanner waits for more. -/
  | more (s : σ)
  /-- The scanner stopped, leaving `rest` unread. -/
  | stop (r : ρ) (s : σ) (rest : List β)
  deriving DecidableEq

variable {σ ρ β : Type}

/-- The same action with `b` still to come behind the buffer. -/
def Action.push (b : List β) : Action σ ρ β → Action σ ρ β
  | .next s rest => .next s (rest ++ b)
  | .stop r s rest => .stop r s (rest ++ b)

/-- Hand the next buffer to a scanner that waits for it. -/
def Outcome.andThen (o : Outcome σ ρ β) (k : σ → List β → Outcome σ ρ β) (b : List β) :
    Outcome σ ρ β :=
  match o with
  | .more s => k s b
  | .stop r s rest => .stop r s (rest ++ b)

/-- What holds of both branches of a test holds of the test. -/
theorem of_ite {α : Sort*} {P : α → Prop} {q : Prop} [Decidable q] {a b : α} (ha : P a) (hb : P b) :
    P (if q then a else b) :=
  iteInduction (fun _ => ha) (fun _ => hb)

/-- The same for two tests of one condition. -/
theorem of_ite₂ {α : Sort*} {R : α → α → Prop} {q : Prop} [Decidable q] {a b a' b' : α} (ha : R a a')
    (hb : R b b') : R (if q then a else b) (if q then a' else b') := by
  split
  · exact ha
  · exact hb

/-- A loop that collects a word symbol by symbol in front of it, `f u` with its prefix `u`. -/
theorem take_word {α : Type} {w : List β} (f : List β → List β → α) (rest : List β)
    (h : ∀ u c v, w = u ++ c :: v → ∀ cs, f u (c :: cs) = f (u ++ [c]) cs) :
    f [] (w ++ rest) = f w rest := by
  have hgo : ∀ v u, w = u ++ v → f u (v ++ rest) = f w rest := by
    intro v
    induction v with
    | nil =>
      intro u hw
      rw [List.append_nil] at hw
      rw [hw, List.nil_append]
    | cons c v ih =>
      intro u hw
      rw [List.cons_append, h u c v hw (v ++ rest)]
      exact ih (u ++ [c]) (by rw [hw, List.append_assoc, List.singleton_append])
  exact hgo w [] rfl

/-- A step function whose every step uses up at least the symbol it looks at. -/
structure Scanner (σ ρ β : Type) where
  /-- One step, on the first symbol and the buffer behind it. -/
  step : σ → β → List β → Action σ ρ β
  /-- A step that goes on has used up the symbol it looked at. -/
  shrinks : ∀ s c cs s' rest, step s c cs = .next s' rest → rest.length ≤ cs.length

namespace Scanner

variable (M : Scanner σ ρ β)

/-- The loop, with the length of the buffer as its fuel. -/
def loop : Nat → σ → List β → Outcome σ ρ β
  | _, s, [] => .more s
  | 0, s, _ :: _ => .more s
  | n + 1, s, c :: cs =>
    match M.step s c cs with
    | .next s' rest => loop n s' rest
    | .stop r s' rest => .stop r s' rest

/-- Read a buffer from state `s`. -/
def run (s : σ) (buf : List β) : Outcome σ ρ β := M.loop buf.length s buf

@[simp] theorem loop_nil (n : Nat) (s : σ) : M.loop n s [] = .more s := by
  cases n <;> rfl

/-- The length of the buffer is fuel enough. -/
theorem loop_eq_run : ∀ (n : Nat) (s : σ) (buf : List β), buf.length ≤ n →
    M.loop n s buf = M.run s buf := by
  intro n
  induction n using Nat.strongRecOn with
  | ind n ih =>
    intro s buf h
    cases buf with
    | nil => rw [run, loop_nil, loop_nil]
    | cons c cs =>
      obtain ⟨m, rfl⟩ : ∃ m, n = m + 1 := ⟨n - 1, by simp only [List.length_cons] at h; omega⟩
      simp only [List.length_cons, Nat.add_le_add_iff_right] at h
      rw [run, List.length_cons, loop, loop]
      cases hs : M.step s c cs with
      | stop r s' rest => rfl
      | next s' rest =>
        have hle := M.shrinks s c cs s' rest hs
        dsimp only
        rw [ih m (Nat.lt_succ_self m) s' rest (by omega)]
        rcases Nat.lt_or_ge cs.length (m + 1) with hlt | hge
        · rw [ih cs.length hlt s' rest hle]
        · omega

@[simp] theorem run_nil (s : σ) : M.run s [] = .more s := by
  rw [run, loop_nil]

theorem run_cons (s : σ) (c : β) (cs : List β) :
    M.run s (c :: cs) = match M.step s c cs with
      | .next s' rest => M.run s' rest
      | .stop r s' rest => .stop r s' rest := by
  rw [run, List.length_cons, loop]
  cases hs : M.step s c cs with
  | stop r s' rest => rfl
  | next s' rest => exact M.loop_eq_run _ _ _ (M.shrinks s c cs s' rest hs)

theorem run_cons_next {s s' : σ} {c : β} {cs rest : List β}
    (h : M.step s c cs = .next s' rest) : M.run s (c :: cs) = M.run s' rest := by
  rw [run_cons, h]

theorem run_cons_stop {s s' : σ} {r : ρ} {c : β} {cs rest : List β}
    (h : M.step s c cs = .stop r s' rest) : M.run s (c :: cs) = .stop r s' rest := by
  rw [run_cons, h]

/-- A word that is taken symbol by symbol, where `after u` is the state behind its prefix `u`. -/
theorem run_word {w : List β} (after : List β → σ) (rest : List β)
    (h : ∀ u c v, w = u ++ c :: v → ∀ cs, M.step (after u) c cs = .next (after (u ++ [c])) cs) :
    M.run (after []) (w ++ rest) = M.run (after w) rest :=
  take_word (fun u cs => M.run (after u) cs) rest fun u c v hw cs => M.run_cons_next (h u c v hw cs)

/-- What every step keeps holds of the state a scanner waits in. -/
theorem more_keeps {P : σ → Prop}
    (keep : ∀ s c cs s' rest, P s → M.step s c cs = .next s' rest → P s') :
    ∀ (buf : List β) (s s' : σ), P s → M.run s buf = .more s' → P s' := by
  intro buf
  induction hn : buf.length using Nat.strongRecOn generalizing buf with
  | ind n ih =>
    intro s s' hs hrun
    cases buf with
    | nil => rw [run_nil] at hrun; cases hrun; exact hs
    | cons c cs =>
      rw [run_cons] at hrun
      cases hst : M.step s c cs with
      | stop r s₁ rest => rw [hst] at hrun; cases hrun
      | next s₁ rest =>
        rw [hst] at hrun
        have hle := M.shrinks s c cs s₁ rest hst
        exact ih rest.length (by rw [← hn, List.length_cons]; omega) rest rfl s₁ s'
          (keep s c cs s₁ rest hs hst) hrun

/-- What every step keeps, and the last one leaves, holds where a scanner stops. -/
theorem stop_keeps {P Q : σ → Prop}
    (keep : ∀ s c cs s' rest, P s → M.step s c cs = .next s' rest → P s')
    (last : ∀ s c cs r s' rest, P s → M.step s c cs = .stop r s' rest → Q s') :
    ∀ (buf : List β) (s : σ) (r : ρ) (s' : σ) (rest : List β), P s →
      M.run s buf = .stop r s' rest → Q s' := by
  intro buf
  induction hn : buf.length using Nat.strongRecOn generalizing buf with
  | ind n ih =>
    intro s r s' rest hs hrun
    cases buf with
    | nil => rw [run_nil] at hrun; cases hrun
    | cons c cs =>
      rw [run_cons] at hrun
      cases hst : M.step s c cs with
      | stop r₁ s₁ rest₁ =>
        rw [hst] at hrun
        cases hrun
        exact last s c cs r s' rest hs hst
      | next s₁ rest₁ =>
        rw [hst] at hrun
        have hle := M.shrinks s c cs s₁ rest₁ hst
        exact ih rest₁.length (by rw [← hn, List.length_cons]; omega) rest₁ rfl s₁ r s' rest
          (keep s c cs s₁ rest₁ hs hst) hrun

/--
In the states of `P`, a step cannot see where its buffer ends: either it acts the
same with more bytes behind it, or it used up the whole buffer and the next step
completes the one that the longer buffer would have taken at once.
-/
structure SplitsOn (P : σ → Prop) : Prop where
  /-- The states of `P` are not left. -/
  keep : ∀ s c cs s' rest, P s → M.step s c cs = .next s' rest → P s'
  /-- The step law. -/
  split : ∀ (s : σ) (c : β) (cs b : List β), P s →
    M.step s c (cs ++ b) = (M.step s c cs).push b ∨
      ∃ s', M.step s c cs = .next s' [] ∧
        ∀ d ds, b = d :: ds → M.step s c (cs ++ b) = M.step s' d ds

/-- **A scanner that splits does not see where one buffer ends and the next begins.** -/
theorem run_append {P : σ → Prop} (h : M.SplitsOn P) : ∀ (a b : List β) (s : σ), P s →
    M.run s (a ++ b) = (M.run s a).andThen M.run b := by
  intro a
  induction hn : a.length using Nat.strongRecOn generalizing a with
  | ind n ih =>
    intro b s hP
    cases a with
    | nil => rw [run_nil]; rfl
    | cons c cs =>
      rw [List.cons_append]
      rcases h.split s c cs b hP with hA | ⟨s', hnext, hB⟩
      · rw [run_cons, run_cons, hA]
        cases hs : M.step s c cs with
        | stop r s' rest => rfl
        | next s' rest =>
          have hle := M.shrinks s c cs s' rest hs
          exact ih rest.length (by rw [← hn, List.length_cons]; omega) rest rfl b s'
            (h.keep s c cs s' rest hP hs)
      · -- the step swallowed `c :: cs` and finishes its work on `b`
        rw [M.run_cons_next hnext, run_nil]
        cases b with
        | nil => rw [List.append_nil, M.run_cons_next hnext, run_nil]; rfl
        | cons d ds =>
          show M.run s (c :: (cs ++ d :: ds)) = M.run s' (d :: ds)
          rw [run_cons, run_cons, hB d ds rfl]

/-- What a scanner leaves unread is the back of what it was given. -/
theorem stop_suffix
    (hnext : ∀ s c cs s' rest, M.step s c cs = .next s' rest → rest <:+ c :: cs)
    (hstop : ∀ s c cs r s' rest, M.step s c cs = .stop r s' rest → rest <:+ c :: cs) :
    ∀ (buf : List β) (s : σ) (r : ρ) (s' : σ) (rest : List β),
      M.run s buf = .stop r s' rest → rest <:+ buf := by
  intro buf
  induction hn : buf.length using Nat.strongRecOn generalizing buf with
  | ind n ih =>
    intro s r s' rest hrun
    cases buf with
    | nil => rw [run_nil] at hrun; cases hrun
    | cons c cs =>
      rw [run_cons] at hrun
      cases hs : M.step s c cs with
      | stop r₁ s₁ rest₁ =>
        rw [hs] at hrun
        cases hrun
        exact hstop s c cs r s' rest hs
      | next s₁ rest₁ =>
        rw [hs] at hrun
        have hle := M.shrinks s c cs s₁ rest₁ hs
        have hlt : rest₁.length < n := by
          rw [← hn, List.length_cons]
          omega
        exact (ih rest₁.length hlt rest₁ rfl s₁ r s' rest hrun).trans (hnext s c cs s₁ rest₁ hs)

end Scanner

/-! ## Two states that cannot be told apart -/

/-- The same action, but for states that `R` relates. -/
inductive Action.Alike (R : σ → σ → Prop) : Action σ ρ β → Action σ ρ β → Prop
  | next {s t : σ} (rest : List β) : R s t → Alike R (.next s rest) (.next t rest)
  | stop {s t : σ} (r : ρ) (rest : List β) : R s t → Alike R (.stop r s rest) (.stop r t rest)

/-- The same outcome, but for states that `R` relates. -/
inductive Outcome.Alike (R : σ → σ → Prop) : Outcome σ ρ β → Outcome σ ρ β → Prop
  | more {s t : σ} : R s t → Alike R (.more s) (.more t)
  | stop {s t : σ} (r : ρ) (rest : List β) : R s t → Alike R (.stop r s rest) (.stop r t rest)

/-- **States that no step can tell apart, no run can tell apart.** -/
theorem Scanner.run_alike (M : Scanner σ ρ β) {R : σ → σ → Prop}
    (hstep : ∀ s t c cs, R s t → (M.step s c cs).Alike R (M.step t c cs)) :
    ∀ (buf : List β) (s t : σ), R s t → (M.run s buf).Alike R (M.run t buf) := by
  intro buf
  induction hn : buf.length using Nat.strongRecOn generalizing buf with
  | ind n ih =>
    intro s t h
    cases buf with
    | nil =>
      rw [run_nil, run_nil]
      exact .more h
    | cons c cs =>
      have hs := hstep s t c cs h
      rw [run_cons, run_cons]
      generalize he : M.step s c cs = a, M.step t c cs = a' at hs
      cases hs with
      | stop r rest h' => exact .stop r rest h'
      | next rest h' =>
        have hle := M.shrinks s c cs _ rest he
        exact ih rest.length (by rw [← hn, List.length_cons]; omega) rest rfl _ _ h'

/-! ## Scanners that look at one symbol at a time -/

/-- What a symbol-by-symbol step does: take the symbol, or stop before or after it. -/
inductive SymbolAction (σ ρ : Type) where
  /-- Take the symbol and go on. -/
  | take (s : σ)
  /-- Stop; the symbol is used up iff `used`. -/
  | stop (r : ρ) (s : σ) (used : Bool)

/-- The same action, but for states that `R` relates. -/
inductive SymbolAction.Alike (R : σ → σ → Prop) : SymbolAction σ ρ → SymbolAction σ ρ → Prop
  | take {s t : σ} : R s t → Alike R (.take s) (.take t)
  | stop {s t : σ} (r : ρ) (used : Bool) : R s t → Alike R (.stop r s used) (.stop r t used)

/-- A symbol action, seen in front of the buffer behind the symbol. -/
def SymbolAction.onBuffer (c : β) (cs : List β) : SymbolAction σ ρ → Action σ ρ β
  | .take s => .next s cs
  | .stop r s used => .stop r s (if used then cs else c :: cs)

theorem SymbolAction.Alike.onBuffer {R : σ → σ → Prop} {a a' : SymbolAction σ ρ}
    (h : a.Alike R a') (c : β) (cs : List β) : (a.onBuffer c cs).Alike R (a'.onBuffer c cs) := by
  cases h with
  | take h => exact .next cs h
  | stop r used h => exact .stop r _ h

theorem SymbolAction.onBuffer_next {a : SymbolAction σ ρ} {s : σ} {c : β} {cs rest : List β}
    (h : a.onBuffer c cs = .next s rest) : rest <:+ c :: cs := by
  cases a with
  | take t =>
    cases h
    exact List.suffix_cons c _
  | stop r t used => cases h

theorem SymbolAction.onBuffer_stop {a : SymbolAction σ ρ} {r : ρ} {s : σ} {c : β} {cs rest : List β}
    (h : a.onBuffer c cs = .stop r s rest) : rest <:+ c :: cs := by
  cases a with
  | take t => cases h
  | stop r t used =>
    cases h
    cases used with
    | true => exact List.suffix_cons c cs
    | false => exact List.suffix_refl _

/-- The scanner of a symbol-by-symbol step function. -/
def Scanner.ofSymbols (f : σ → β → SymbolAction σ ρ) : Scanner σ ρ β where
  step s c cs := (f s c).onBuffer c cs
  shrinks s c cs s' rest h := by
    cases hf : f s c with
    | take t =>
      rw [hf] at h
      cases h
      exact Nat.le_refl _
    | stop r t used =>
      rw [hf] at h
      cases h

theorem Scanner.ofSymbols_splits (f : σ → β → SymbolAction σ ρ) :
    (Scanner.ofSymbols f).SplitsOn fun _ => True := by
  refine ⟨fun _ _ _ _ _ _ _ => trivial, ?_⟩
  intro s c cs b _
  refine Or.inl ?_
  show (f s c).onBuffer c (cs ++ b) = ((f s c).onBuffer c cs).push b
  cases f s c with
  | take t => rfl
  | stop r t used => cases used <;> rfl

theorem Scanner.ofSymbols_take {f : σ → β → SymbolAction σ ρ} {s s' : σ} {c : β} {cs : List β}
    (h : f s c = .take s') :
    (Scanner.ofSymbols f).run s (c :: cs) = (Scanner.ofSymbols f).run s' cs := by
  refine Scanner.run_cons_next _ ?_
  show (f s c).onBuffer c cs = _
  rw [h]; rfl

theorem Scanner.ofSymbols_word {f : σ → β → SymbolAction σ ρ} {w : List β} (after : List β → σ)
    (rest : List β) (h : ∀ u c v, w = u ++ c :: v → f (after u) c = .take (after (u ++ [c]))) :
    (Scanner.ofSymbols f).run (after []) (w ++ rest) = (Scanner.ofSymbols f).run (after w) rest := by
  refine (Scanner.ofSymbols f).run_word after rest ?_
  intro u c v hw cs
  show (f (after u) c).onBuffer c cs = _
  rw [h u c v hw]
  rfl

theorem Scanner.ofSymbols_stop {f : σ → β → SymbolAction σ ρ} {s s' : σ} {r : ρ} {used : Bool}
    {c : β} {cs : List β} (h : f s c = .stop r s' used) :
    (Scanner.ofSymbols f).run s (c :: cs) = .stop r s' (if used then cs else c :: cs) := by
  refine Scanner.run_cons_stop _ ?_
  show (f s c).onBuffer c cs = _
  rw [h]; rfl

/-- What the symbols that were taken leave in the state, `R s w` behind the word `w`. -/
theorem Scanner.ofSymbols_more {f : σ → β → SymbolAction σ ρ} {R : σ → List β → Prop}
    (htake : ∀ s w c s', R s w → f s c = .take s' → R s' (w ++ [c])) :
    ∀ (buf : List β) (s s' : σ) (w : List β), R s w →
      (Scanner.ofSymbols f).run s buf = .more s' → R s' (w ++ buf) := by
  intro buf
  induction buf with
  | nil =>
    intro s s' w h hrun
    rw [Scanner.run_nil] at hrun
    cases hrun
    rw [List.append_nil]
    exact h
  | cons c cs ih =>
    intro s s' w h hrun
    cases hf : f s c with
    | take t =>
      rw [Scanner.ofSymbols_take hf] at hrun
      have hrest := ih t s' (w ++ [c]) (htake s w c t h hf) hrun
      rw [List.append_assoc, List.singleton_append] at hrest
      exact hrest
    | stop r t used =>
      rw [Scanner.ofSymbols_stop hf] at hrun
      cases hrun

/-- A scanner stops behind the symbols that it took, at the next one. -/
theorem Scanner.ofSymbols_stopped {f : σ → β → SymbolAction σ ρ} :
    ∀ (buf : List β) {s s' : σ} {r : ρ} {rest : List β},
      (Scanner.ofSymbols f).run s buf = .stop r s' rest →
      ∃ u c v t used, buf = u ++ c :: v ∧ (Scanner.ofSymbols f).run s u = .more t ∧
        f t c = .stop r s' used ∧ rest = if used then v else c :: v := by
  intro buf
  induction buf with
  | nil =>
    intro s s' r rest hrun
    rw [Scanner.run_nil] at hrun
    cases hrun
  | cons c cs ih =>
    intro s s' r rest hrun
    cases hf : f s c with
    | take t =>
      rw [Scanner.ofSymbols_take hf] at hrun
      obtain ⟨u, d, v, t', used, rfl, hmore, hstop, hrest⟩ := ih hrun
      refine ⟨c :: u, d, v, t', used, rfl, ?_, hstop, hrest⟩
      rw [Scanner.ofSymbols_take hf]
      exact hmore
    | stop r' t used =>
      rw [Scanner.ofSymbols_stop hf] at hrun
      cases hrun
      exact ⟨[], c, cs, s, used, rfl, Scanner.run_nil _ s, hf, rfl⟩

end Pion.Lib
