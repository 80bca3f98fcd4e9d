import Pion.Lib.Scanner

/-!
# Machines as recognisers

A scanner recognises a word when it stops with the good verdict, and it may have read
a value out of the word by then. `Yields` says so of a state: what stands in front of it
is such a word, this is its value, and this comes behind it.

The rules here are equations of languages, one for each thing a state can do. A
grammar is proved right by rewriting with them: take a symbol, stop, fail, or run
through a word of symbols of one kind and the symbol that ends it (`yields_closed`).

A machine from every state of which some word is still recognised fails as early as
anything could: at the first symbol behind which no continuation is a good one
(`fails_iff`).
-/

namespace Pion.Lib

variable {σ ρ β α : Type} {M : Scanner σ ρ β} {ok : ρ} {val : σ → α}

/-- In `s`, the scanner does this with the symbol `c`, whatever comes behind it. -/
def Scanner.Acts (M : Scanner σ ρ β) (s : σ) (c : β) (a : SymbolAction σ ρ) : Prop :=
  ∀ cs, M.step s c cs = a.onBuffer c cs

/-- From `s`, the machine recognises a word at the front of `buf`: it stops with the verdict
`ok` in front of `rest`, and `v` is the value that it has read. -/
def Yields (M : Scanner σ ρ β) (ok : ρ) (val : σ → α) (s : σ) (buf : List β) (v : α)
    (rest : List β) : Prop :=
  ∃ t, M.run s buf = .stop ok t rest ∧ val t = v

/-- The machine stops at this symbol, with another verdict. -/
def Fails (M : Scanner σ ρ β) (ok : ρ) (s : σ) (c : β) : Prop :=
  ∃ r t used, M.Acts s c (.stop r t used) ∧ r ≠ ok

/-! ## One symbol -/

theorem not_yields_nil (s : σ) (v : α) (rest : List β) : ¬ Yields M ok val s [] v rest := by
  rintro ⟨t, hrun, _⟩
  rw [Scanner.run_nil] at hrun
  cases hrun

theorem yields_take {s s' : σ} {c : β} (h : M.Acts s c (.take s')) (cs : List β) (v : α) (rest : List β) :
    Yields M ok val s (c :: cs) v rest ↔ Yields M ok val s' cs v rest := by
  unfold Yields
  rw [M.run_cons_next (h cs)]

theorem yields_stop {s s' : σ} {c : β} {used : Bool} (h : M.Acts s c (.stop ok s' used)) (cs : List β)
    (v : α) (rest : List β) :
    Yields M ok val s (c :: cs) v rest ↔ val s' = v ∧ (if used then cs else c :: cs) = rest := by
  unfold Yields
  rw [M.run_cons_stop (h cs)]
  constructor
  · rintro ⟨t, hrun, hv⟩
    cases hrun
    exact ⟨hv, rfl⟩
  · rintro ⟨hv, hrest⟩
    exact ⟨s', by rw [hrest], hv⟩

theorem Fails.not_yields {s : σ} {c : β} (h : Fails M ok s c) (cs : List β) (v : α) (rest : List β) :
    ¬ Yields M ok val s (c :: cs) v rest := by
  obtain ⟨r, t, used, hf, hr⟩ := h
  rintro ⟨t', hrun, _⟩
  rw [M.run_cons_stop (hf cs)] at hrun
  cases hrun
  exact hr rfl

/-- A state that leads on if `P` holds of the symbol, and fails if it does not. -/
theorem yields_only {P : Prop} {s s' : σ} {c : β} (htake : P → M.Acts s c (.take s'))
    (hfails : ¬ P → Fails M ok s c) (cs : List β) (v : α) (rest : List β) :
    Yields M ok val s (c :: cs) v rest ↔ P ∧ Yields M ok val s' cs v rest := by
  by_cases hP : P
  · exact (yields_take (htake hP) cs v rest).trans (and_iff_right hP).symm
  · exact ⟨fun h => absurd h ((hfails hP).not_yields cs v rest), fun h => absurd h.1 hP⟩

/-- A state that waits for one symbol. -/
theorem yields_symbol {s s' : σ} {x : β} (htake : M.Acts s x (.take s'))
    (hfails : ∀ c, c ≠ x → Fails M ok s c) (buf : List β) (v : α) (rest : List β) :
    Yields M ok val s buf v rest ↔ ∃ cs, buf = x :: cs ∧ Yields M ok val s' cs v rest := by
  cases buf with
  | nil =>
    refine ⟨fun hy => absurd hy (not_yields_nil s v rest), ?_⟩
    rintro ⟨cs, hbuf, _⟩
    cases hbuf
  | cons c cs =>
    refine (yields_only (P := c = x) (fun hc => hc ▸ htake) (hfails c) cs v rest).trans ⟨?_, ?_⟩
    · rintro ⟨rfl, hy⟩
      exact ⟨cs, rfl, hy⟩
    · rintro ⟨cs', hbuf, hy⟩
      obtain ⟨rfl, rfl⟩ := List.cons.inj hbuf
      exact ⟨rfl, hy⟩

/-! ## Words -/

/-- A state that collects symbols of one kind, `after w` behind the word `w`, as long as the
word fits. -/
structure Collects (M : Scanner σ ρ β) (ok : ρ) (after : List β → σ)
    (inside : β → Prop) (fits : List β → Prop) : Prop where
  nil : fits []
  front : ∀ u w, fits (u ++ w) → fits u
  take : ∀ w c, fits w → inside c → fits (w ++ [c]) → M.Acts (after w) c (.take (after (w ++ [c])))
  full : ∀ w c, fits w → inside c → ¬ fits (w ++ [c]) → Fails M ok (after w) c

/-- A word of bounded length. -/
theorem Collects.bounded {after : List β → σ} {inside : β → Prop} {max : Nat}
    (htake : ∀ w c, inside c → w.length < max → M.Acts (after w) c (.take (after (w ++ [c]))))
    (hfull : ∀ w c, inside c → max ≤ w.length → Fails M ok (after w) c) :
    Collects M ok after inside fun w => w.length ≤ max where
  nil := Nat.zero_le max
  front := fun u w h => by
    rw [List.length_append] at h
    omega
  take := fun w c _ hc h => htake w c hc (by simp only [List.length_append, List.length_singleton] at h; omega)
  full := fun w c _ hc h => hfull w c hc (by simp only [List.length_append, List.length_singleton] at h; omega)

/-- A word of any length. -/
theorem Collects.free {after : List β → σ} {inside : β → Prop}
    (htake : ∀ w c, inside c → M.Acts (after w) c (.take (after (w ++ [c])))) :
    Collects M ok after inside fun _ => True where
  nil := trivial
  front := fun _ _ _ => trivial
  take := fun w c _ hc _ => htake w c hc
  full := fun _ _ _ _ h => absurd trivial h

/-- **A word, as far as it goes.** It ends at the first symbol of another kind; `u` is the
part of it that has been read. -/
theorem yields_word {after : List β → σ} {inside : β → Prop} {fits : List β → Prop}
    (h : Collects M ok after inside fits) (v : α) (rest : List β) :
    ∀ (buf u : List β), fits u → (Yields M ok val (after u) buf v rest ↔
      ∃ w c cs, buf = w ++ c :: cs ∧ (∀ d ∈ w, inside d) ∧ fits (u ++ w) ∧ ¬ inside c ∧
        Yields M ok val (after (u ++ w)) (c :: cs) v rest) := by
  intro buf
  induction buf with
  | nil =>
    intro u _
    refine ⟨fun hy => absurd hy (not_yields_nil _ v rest), ?_⟩
    rintro ⟨w, c, cs, hbuf, _⟩
    exact absurd hbuf.symm (List.append_ne_nil_of_right_ne_nil w (List.cons_ne_nil c cs))
  | cons b buf ih =>
    intro u hu
    -- a word that does not begin with `b` is empty
    have hempty : ¬ inside b → ∀ w c cs, b :: buf = w ++ c :: cs → (∀ d ∈ w, inside d) → w = [] := by
      intro hb w c cs hbuf hw
      cases w with
      | nil => rfl
      | cons d w =>
        obtain ⟨rfl, _⟩ := List.cons.inj hbuf
        exact absurd (hw _ List.mem_cons_self) hb
    -- and one that does is not
    have hword : inside b → ∀ w c cs, b :: buf = w ++ c :: cs → ¬ inside c →
        ∃ w', w = b :: w' ∧ buf = w' ++ c :: cs := by
      intro hb w c cs hbuf hc
      cases w with
      | nil =>
        obtain ⟨rfl, _⟩ := List.cons.inj hbuf
        exact absurd hb hc
      | cons d w =>
        obtain ⟨rfl, rfl⟩ := List.cons.inj hbuf
        exact ⟨w, rfl, rfl⟩
    by_cases hb : inside b
    · by_cases hfits : fits (u ++ [b])
      · rw [yields_take (h.take u b hu hb hfits), ih (u ++ [b]) hfits]
        constructor
        · rintro ⟨w, c, cs, rfl, hw, hfit, hc, hy⟩
          rw [List.append_assoc, List.singleton_append] at hfit hy
          refine ⟨b :: w, c, cs, rfl, ?_, hfit, hc, hy⟩
          intro d hd
          rcases List.mem_cons.mp hd with rfl | hd
          · exact hb
          · exact hw d hd
        · rintro ⟨w, c, cs, hbuf, hw, hfit, hc, hy⟩
          obtain ⟨w, rfl, hrest⟩ := hword hb w c cs hbuf hc
          rw [List.append_cons] at hfit hy
          exact ⟨w, c, cs, hrest, fun e he => hw e (List.mem_cons_of_mem b he), hfit, hc, hy⟩
      · refine ⟨fun hy => absurd hy ((h.full u b hu hb hfits).not_yields buf v rest), ?_⟩
        rintro ⟨w, c, cs, hbuf, _, hfit, hc, _⟩
        obtain ⟨w, rfl, _⟩ := hword hb w c cs hbuf hc
        -- the word fits, so it fits as far as `b`
        rw [List.append_cons] at hfit
        exact absurd (h.front _ w hfit) hfits
    · constructor
      · intro hy
        exact ⟨[], b, buf, rfl, fun d hd => absurd hd List.not_mem_nil,
          by rwa [List.append_nil], hb, by rwa [List.append_nil]⟩
      · rintro ⟨w, c, cs, hbuf, hw, _, _, hy⟩
        obtain rfl := hempty hb w c cs hbuf hw
        rw [List.append_nil] at hy
        rw [hbuf]
        exact hy

/-- A word whose first symbol is read in another state. -/
theorem yields_word_first {after : List β → σ} {inside : β → Prop} {fits : List β → Prop}
    (h : Collects M ok after inside fits) {s : σ}
    (hfirst : ∀ c, inside c → fits [c] ∧ M.Acts s c (.take (after [c]))) (b : β) (buf : List β) (v : α)
    (rest : List β) (hb : inside b) :
    Yields M ok val s (b :: buf) v rest ↔ ∃ w c cs, b :: buf = w ++ c :: cs ∧ w ≠ [] ∧
      (∀ d ∈ w, inside d) ∧ fits w ∧ ¬ inside c ∧ Yields M ok val (after w) (c :: cs) v rest := by
  obtain ⟨hfits, htake⟩ := hfirst b hb
  rw [yields_take htake, yields_word h v rest buf [b] hfits]
  constructor
  · rintro ⟨w, c, cs, rfl, hw, hfit, hc, hy⟩
    refine ⟨b :: w, c, cs, rfl, List.cons_ne_nil b w, ?_, hfit, hc, hy⟩
    intro d hd
    rcases List.mem_cons.mp hd with rfl | hd
    · exact hb
    · exact hw d hd
  · rintro ⟨w, c, cs, hbuf, hne, hw, hfit, hc, hy⟩
    obtain ⟨d, w, rfl⟩ := List.exists_cons_of_ne_nil hne
    obtain ⟨rfl, rfl⟩ := List.cons.inj hbuf
    exact ⟨w, c, cs, rfl, fun e he => hw e (List.mem_cons_of_mem b he), hfit, hc, hy⟩

section closed

variable {after : List β → σ} {next : List β → β → σ} {inside closes : β → Prop} {fits : List β → Prop}

/-- Behind a word stands a symbol that ends it, or the scanner fails. -/
def ClosedBy (M : Scanner σ ρ β) (ok : ρ) (after : List β → σ) (inside closes : β → Prop)
    (next : List β → β → σ) : Prop :=
  (∀ c, closes c → ¬ inside c) ∧ ∀ w c, ¬ inside c →
    (closes c → M.Acts (after w) c (.take (next w c))) ∧ (¬ closes c → Fails M ok (after w) c)

theorem ClosedBy.yields (h : ClosedBy M ok after inside closes next) (w : List β) {c : β}
    (hc : ¬ inside c) (cs : List β) (v : α) (rest : List β) :
    Yields M ok val (after w) (c :: cs) v rest ↔ closes c ∧ Yields M ok val (next w c) cs v rest :=
  yields_only (h.2 w c hc).1 (h.2 w c hc).2 cs v rest

/-- **A word and the symbol that ends it.** -/
theorem yields_closed (h : Collects M ok after inside fits)
    (hclosed : ClosedBy M ok after inside closes next) (v : α) (rest buf u : List β) (hu : fits u) :
    Yields M ok val (after u) buf v rest ↔
      ∃ w c cs, buf = w ++ c :: cs ∧ (∀ d ∈ w, inside d) ∧ fits (u ++ w) ∧ closes c ∧
        Yields M ok val (next (u ++ w) c) cs v rest := by
  refine (yields_word h v rest buf u hu).trans ?_
  constructor
  · rintro ⟨w, c, cs, rfl, hw, hfit, hc, hy⟩
    exact ⟨w, c, cs, rfl, hw, hfit, (hclosed.yields (u ++ w) hc cs v rest).mp hy⟩
  · rintro ⟨w, c, cs, rfl, hw, hfit, hc, hy⟩
    have hout := hclosed.1 c hc
    exact ⟨w, c, cs, rfl, hw, hfit, hout, (hclosed.yields (u ++ w) hout cs v rest).mpr ⟨hc, hy⟩⟩

/-- The same for a word whose first symbol is read in another state. -/
theorem yields_closed_first (h : Collects M ok after inside fits)
    (hclosed : ClosedBy M ok after inside closes next) {s : σ}
    (hfirst : ∀ c, inside c → fits [c] ∧ M.Acts s c (.take (after [c]))) (b : β) (buf : List β) (v : α)
    (rest : List β) (hb : inside b) :
    Yields M ok val s (b :: buf) v rest ↔ ∃ w c cs, b :: buf = w ++ c :: cs ∧ w ≠ [] ∧
      (∀ d ∈ w, inside d) ∧ fits w ∧ closes c ∧ Yields M ok val (next w c) cs v rest := by
  refine (yields_word_first h hfirst b buf v rest hb).trans ?_
  constructor
  · rintro ⟨w, c, cs, hbuf, hne, hw, hfit, hc, hy⟩
    exact ⟨w, c, cs, hbuf, hne, hw, hfit, (hclosed.yields w hc cs v rest).mp hy⟩
  · rintro ⟨w, c, cs, hbuf, hne, hw, hfit, hc, hy⟩
    have hout := hclosed.1 c hc
    exact ⟨w, c, cs, hbuf, hne, hw, hfit, hout, (hclosed.yields w hout cs v rest).mpr ⟨hc, hy⟩⟩

end closed

/-! ## Machines that cannot be told apart -/

/-- States with the same value, between which no step can tell, recognise the same words. -/
theorem yields_alike {R : σ → σ → Prop} (hstep : ∀ s t c cs, R s t → (M.step s c cs).Alike R (M.step t c cs))
    (hval : ∀ s t, R s t → val s = val t) (hsymm : ∀ s t, R s t → R t s) {s t : σ} (h : R s t)
    (buf : List β) (v : α) (rest : List β) :
    Yields M ok val s buf v rest ↔ Yields M ok val t buf v rest := by
  have hgo : ∀ {s t : σ}, R s t → Yields M ok val s buf v rest → Yields M ok val t buf v rest := by
    rintro s t h ⟨s', hrun, hv⟩
    have halike := M.run_alike hstep buf s t h
    rw [hrun] at halike
    generalize ho : M.run t buf = o at halike
    cases halike with
    | stop r rest h' => exact ⟨_, ho, (hval _ _ h').symm.trans hv⟩
  exact ⟨hgo h, hgo (hsymm s t h)⟩

/-! ## Failing early -/

section early

variable {f : σ → β → SymbolAction σ ρ}

/-- Some word is recognised from `s`. -/
def Viable (f : σ → β → SymbolAction σ ρ) (ok : ρ) (s : σ) : Prop :=
  ∃ buf t rest, (Scanner.ofSymbols f).run s buf = .stop ok t rest

/-- Some continuation of `front` is recognised from `s`. -/
def Continues (f : σ → β → SymbolAction σ ρ) (ok : ρ) (s : σ) (front : List β) : Prop :=
  ∃ later t rest, (Scanner.ofSymbols f).run s (front ++ later) = .stop ok t rest

theorem run_later (f : σ → β → SymbolAction σ ρ) (s : σ) (front later : List β) :
    (Scanner.ofSymbols f).run s (front ++ later) =
      ((Scanner.ofSymbols f).run s front).andThen (Scanner.ofSymbols f).run later :=
  (Scanner.ofSymbols f).run_append (Scanner.ofSymbols_splits f) front later s trivial

/-- A machine that stopped with another verdict has nothing to expect. -/
theorem not_continues {s t : σ} {front rest : List β} {r : ρ}
    (h : (Scanner.ofSymbols f).run s front = .stop r t rest) (hr : r ≠ ok) :
    ¬ Continues f ok s front := by
  rintro ⟨later, t', rest', hrun⟩
  rw [run_later, h] at hrun
  injection hrun with hr'
  exact hr hr'

/-- **Nothing is refused that could still be continued, and nothing later than it could be.**
A machine that does not use up the symbol that it fails on leaves `rest` behind if and only if
what it has read has a good continuation, and with the first symbol of `rest` has none. -/
theorem fails_iff (hviable : ∀ s, Viable f ok s)
    (hleft : ∀ s c r t used, f s c = .stop r t used → r ≠ ok → used = false)
    (s : σ) (buf rest : List β) :
    (∃ r t, (Scanner.ofSymbols f).run s buf = .stop r t rest ∧ r ≠ ok) ↔
      ∃ front c tail, buf = front ++ c :: tail ∧ rest = c :: tail ∧ Continues f ok s front ∧
        ¬ Continues f ok s (front ++ [c]) := by
  constructor
  · rintro ⟨r, t, hrun, hr⟩
    obtain ⟨front, c, tail, s', used, rfl, hmore, hstop, hrest⟩ := Scanner.ofSymbols_stopped buf hrun
    rw [hleft s' c r t used hstop hr] at hrest
    refine ⟨front, c, tail, rfl, hrest, ?_, ?_⟩
    · obtain ⟨later, t', rest', hlater⟩ := hviable s'
      exact ⟨later, t', rest', by rw [run_later, hmore]; exact hlater⟩
    · have hlast : (Scanner.ofSymbols f).run s (front ++ [c]) = .stop r t (if used then [] else [c]) := by
        rw [run_later, hmore]
        exact Scanner.ofSymbols_stop hstop
      exact not_continues hlast hr
  · rintro ⟨front, c, tail, rfl, rfl, hfront, hc⟩
    rw [run_later]
    cases hrun : (Scanner.ofSymbols f).run s front with
    | more s' =>
      cases hf : f s' c with
      | take s'' =>
        obtain ⟨later, t', rest', hlater⟩ := hviable s''
        refine absurd ⟨later, t', rest', ?_⟩ hc
        rw [run_later, run_later, hrun]
        show ((Scanner.ofSymbols f).run s' [c]).andThen _ later = _
        rw [Scanner.ofSymbols_take hf, Scanner.run_nil]
        exact hlater
      | stop r t used =>
        have hr : r ≠ ok := by
          rintro rfl
          refine hc ⟨[], t, (if used then [] else [c]) ++ [], ?_⟩
          rw [run_later, run_later, hrun]
          show ((Scanner.ofSymbols f).run s' [c]).andThen _ [] = _
          rw [Scanner.ofSymbols_stop hf]
          rfl
        refine ⟨r, t, ?_, hr⟩
        show (Scanner.ofSymbols f).run s' (c :: tail) = _
        rw [Scanner.ofSymbols_stop hf, hleft s' c r t used hf hr]
        rfl
    | stop r t rest =>
      by_cases hr : r = ok
      · subst hr
        refine absurd ⟨[], t, rest ++ [c] ++ [], ?_⟩ hc
        rw [run_later, run_later, hrun]
        rfl
      · exact absurd hfront (not_continues hrun hr)

end early

end Pion.Lib
