import Mathlib.Data.List.Induction

/-!
# Runs of a machine

A machine takes events, and an event may be impossible in a state. A run is a list of events,
each possible in the state that the ones before have led to.

What has to be remembered of a run beyond its state, for a property to be stated, is kept
beside the state by `tracked`, which makes no difference to the runs.
-/

namespace Pion.Lib

variable {σ ε γ : Type} {step : σ → ε → Option σ}

/-- The state that a run ends in, if all its events are possible. -/
def exec (step : σ → ε → Option σ) : σ → List ε → Option σ
  | s, [] => some s
  | s, e :: es => (step s e).bind fun s => exec step s es

theorem exec_append (s : σ) (es fs : List ε) :
    exec step s (es ++ fs) = (exec step s es).bind fun s => exec step s fs := by
  induction es generalizing s with
  | nil => rfl
  | cons e es ih =>
    rw [List.cons_append, exec, exec, Option.bind_assoc]
    exact congrArg (Option.bind (step s e)) (funext ih)

theorem exec_trans {s t u : σ} {es fs : List ε} (h : exec step s es = some t) (h' : exec step t fs = some u) :
    exec step s (es ++ fs) = some u := by
  rw [exec_append, h]
  exact h'

/-- The last event of a run. -/
theorem exec_snoc {s s' : σ} {es : List ε} {e : ε} :
    exec step s (es ++ [e]) = some s' ↔ ∃ t, exec step s es = some t ∧ step t e = some s' := by
  rw [exec_append, Option.bind_eq_some_iff]
  have hone : ∀ t, exec step t [e] = step t e := fun t => Option.bind_fun_some (step t e)
  simp only [hone]

/-- **Every run keeps what every event keeps.** The invariant may be about the events so far. -/
theorem exec_invariant (Inv : List ε → σ → Prop) {s₀ : σ} (hstart : Inv [] s₀)
    (hstep : ∀ es s e s', exec step s₀ es = some s → Inv es s → step s e = some s' → Inv (es ++ [e]) s')
    {es : List ε} {s : σ} (h : exec step s₀ es = some s) : Inv es s := by
  induction es using List.reverseRecOn generalizing s with
  | nil =>
    obtain rfl := Option.some.inj h
    exact hstart
  | append_singleton es e ih =>
    obtain ⟨t, ht, hs⟩ := exec_snoc.mp h
    exact hstep es t e s ht (ih ht) hs

/-- Every event of a run happens in a state of which `P` holds. -/
def Throughout (step : σ → ε → Option σ) (P : σ → ε → Prop) (s₀ : σ) (es : List ε) : Prop :=
  ∀ front e back s, es = front ++ e :: back → exec step s₀ front = some s → P s e

theorem throughout_append {P : σ → ε → Prop} {s₀ : σ} {es fs : List ε}
    (h : Throughout step P s₀ (es ++ fs)) : Throughout step P s₀ es := by
  intro front e back s hes hs
  exact h front e (back ++ fs) s (by rw [hes, List.append_assoc, List.cons_append]) hs

theorem Throughout.last {P : σ → ε → Prop} {s₀ s : σ} {es : List ε} {e : ε}
    (h : Throughout step P s₀ (es ++ [e])) (hs : exec step s₀ es = some s) : P s e :=
  h es e [] s rfl hs

/-- **A run keeps what its events keep in the states they happen in.** -/
theorem exec_throughout {P : σ → ε → Prop} (Inv : σ → Prop) {s₀ : σ} (hstart : Inv s₀)
    (hstep : ∀ s e s', Inv s → P s e → step s e = some s' → Inv s')
    {es : List ε} {s : σ} (h : exec step s₀ es = some s) (hall : Throughout step P s₀ es) :
    Inv s := by
  have hinv := exec_invariant (fun es s => Throughout step P s₀ es → Inv s) (fun _ => hstart)
    (fun es s e s' hs ih he hall => hstep s e s' (ih (throughout_append hall)) (hall.last hs) he) h
  exact hinv hall

theorem throughout_cons {P : σ → ε → Prop} {s₀ : σ} {e : ε} {es : List ε} :
    Throughout step P s₀ (e :: es) ↔ P s₀ e ∧ ∀ s ∈ step s₀ e, Throughout step P s es := by
  constructor
  · intro h
    refine ⟨h [] e es s₀ rfl rfl, ?_⟩
    intro s hs front e' back t hes ht
    refine h (e :: front) e' back t (by rw [hes, List.cons_append]) ?_
    rw [exec, Option.mem_def.mp hs]
    exact ht
  · rintro ⟨hfirst, hrest⟩ front e' back t hes ht
    cases front with
    | nil =>
      obtain ⟨rfl, rfl⟩ := List.cons.inj hes
      obtain rfl := Option.some.inj ht
      exact hfirst
    | cons f front =>
      obtain ⟨rfl, hback⟩ := List.cons.inj hes
      obtain ⟨s, hs, ht⟩ := Option.bind_eq_some_iff.mp ht
      exact hrest s hs front e' back t hback ht

instance decidableThroughout {P : σ → ε → Prop} [∀ s e, Decidable (P s e)] :
    ∀ (s₀ : σ) (es : List ε), Decidable (Throughout step P s₀ es)
  | _, [] => .isTrue fun _ _ _ _ hes _ => by simp at hes
  | s₀, e :: es =>
    have : Decidable (∀ s ∈ step s₀ e, Throughout step P s es) :=
      match step s₀ e with
      | none => .isTrue fun _ hs => by cases hs
      | some s =>
        match decidableThroughout s es with
        | .isTrue h => .isTrue fun t ht => by cases ht; exact h
        | .isFalse h => .isFalse fun hall => h (hall s rfl)
    decidable_of_iff' _ throughout_cons

/-! ## Simulation -/

/-- **Steps that are runs of another machine make runs of it.** The steps may be none. -/
theorem exec_simulates {τ ζ : Type} {step' : τ → ζ → Option τ} (f : σ → τ)
    (hstep : ∀ s e s', step s e = some s' → ∃ fs, exec step' (f s) fs = some (f s'))
    {s s' : σ} {es : List ε} (h : exec step s es = some s') : ∃ fs, exec step' (f s) fs = some (f s') := by
  induction es generalizing s with
  | nil =>
    obtain rfl := Option.some.inj h
    exact ⟨[], rfl⟩
  | cons e es ih =>
    obtain ⟨t, ht, hrest⟩ := Option.bind_eq_some_iff.mp h
    obtain ⟨fs, hfs⟩ := hstep s e t ht
    obtain ⟨gs, hgs⟩ := ih hrest
    exact ⟨fs ++ gs, exec_trans hfs hgs⟩

/-! ## Remembering -/

/-- The machine, with something remembered about its run. -/
def tracked (step : σ → ε → Option σ) (note : σ → ε → γ → γ) (s : σ × γ) (e : ε) : Option (σ × γ) :=
  (step s.1 e).map fun t => (t, note s.1 e s.2)

theorem tracked_eq_some {note : σ → ε → γ → γ} {s s' : σ × γ} {e : ε} :
    tracked step note s e = some s' ↔ step s.1 e = some s'.1 ∧ note s.1 e s.2 = s'.2 := by
  unfold tracked
  rw [Option.map_eq_some_iff]
  constructor
  · rintro ⟨t, ht, rfl⟩
    exact ⟨ht, rfl⟩
  · rintro ⟨ht, hn⟩
    exact ⟨s'.1, ht, Prod.ext rfl hn⟩

/-- Something is remembered of every run. -/
theorem tracked_of_exec {note : σ → ε → γ → γ} {s s' : σ} {es : List ε} (h : exec step s es = some s') :
    ∀ g, ∃ g', exec (tracked step note) (s, g) es = some (s', g') := by
  induction es generalizing s with
  | nil =>
    obtain rfl := Option.some.inj h
    exact fun g => ⟨g, rfl⟩
  | cons e es ih =>
    intro g
    obtain ⟨t, ht, hrest⟩ := Option.bind_eq_some_iff.mp h
    obtain ⟨g', hg'⟩ := ih hrest (note s e g)
    have hfirst : tracked step note (s, g) e = some (t, note s e g) := tracked_eq_some.mpr ⟨ht, rfl⟩
    refine ⟨g', ?_⟩
    rw [exec, hfirst]
    exact hg'

/-- What is remembered makes no difference. -/
theorem exec_of_tracked {note : σ → ε → γ → γ} {s s' : σ × γ} {es : List ε}
    (h : exec (tracked step note) s es = some s') : exec step s.1 es = some s'.1 := by
  induction es generalizing s with
  | nil =>
    obtain rfl := Option.some.inj h
    rfl
  | cons e es ih =>
    obtain ⟨t, ht, hrest⟩ := Option.bind_eq_some_iff.mp h
    rw [exec, (tracked_eq_some.mp ht).1]
    exact ih hrest

end Pion.Lib
