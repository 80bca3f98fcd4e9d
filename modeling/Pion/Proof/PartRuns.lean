import Pion.Proof.Parts

/-!
# Runs over the parts

The loop is run with the text of the part that it is in beside its state. Where the data of a
part is looked at, the part has been come to; and the data of every such part is looked at, unless
the part is skipped.
-/

namespace Pion.Proof

open Pion Lib

open FormPart (LineByte)

variable {x : Externals} {data b : Bytes}

/-! ## Runs -/

/-- Where a run is in the form, and the part that it is in. -/
inductive InForm (b data : Bytes) : MultiPart × Bytes → Prop
  | between {s : MultiPart} {text u : Bytes} (hs : s.parseState = .start) (hu : Searched b data u)
    (hrest : data.drop s.ptr = [] ∨ NextBoundary b u (data.drop s.ptr)) : InForm b data (s, text)
  | inside {s : MultiPart} {u front rest : Bytes} {q : Nat} (hu : Searched b data u)
    (htext : NextBoundary b u (front ++ rest)) (hq : data.drop q = front ++ rest)
    (hptr : s.ptr = q + front.length) (hs : Inside b front s) : InForm b data (s, front ++ rest)

theorem Inside.ne_start {front : Bytes} {s : MultiPart} (h : Inside b front s) : s.parseState ≠ .start := by
  cases h with
  | @line e ls l =>
    unfold inLine inLineState
    dsimp only
    split_ifs
    all_goals simp
  | boundary => exact fun h => by cases h
  | firstCr => exact fun h => by cases h
  | lineCr => exact fun h => by cases h
  | lastCr => exact fun h => by cases h
  | data => exact fun h => by cases h

/-- The pass that jumps over a boundary. -/
theorem InForm.jump (hb : b.head? = some dash) {s t : MultiPart} {u : Bytes} {c : UInt8}
    (hs : s.parseState = .start) (hu : Searched b data u)
    (hrest : data.drop s.ptr = [] ∨ NextBoundary b u (data.drop s.ptr)) (hc : data[s.ptr]? = some c)
    (hstep : multiPartStep x data b s c = .inl t) : InForm b data (t, data.drop s.ptr) := by
  have hnext : NextBoundary b u (data.drop s.ptr) := by
    refine hrest.resolve_left fun hnil => ?_
    rw [List.drop_eq_nil_iff, ← List.getElem?_eq_none_iff] at hnil
    rw [hnil] at hc
    cases hc
  obtain ⟨rest, hrest⟩ := hnext.starts
  obtain rfl : t = betweenLines .headerCr {} s.foundParameter s.dict (s.ptr + (b.length - 1) + 1) := by
    unfold multiPartStep at hstep
    rw [hs] at hstep
    exact (Sum.inl.inj hstep).symm
  have hpos : 0 < b.length := by
    obtain ⟨b', rfl⟩ := List.head?_eq_some_iff.mp hb
    exact Nat.succ_pos _
  rw [← hrest]
  rw [← hrest] at hnext
  exact .inside hu hnext hrest.symm (show s.ptr + (b.length - 1) + 1 = s.ptr + b.length by omega)
    (.boundary _ _ _)

/-- The pass that leaves a part. -/
theorem InForm.leave (hb : b.head? = some dash) {s t : MultiPart} {u front rest text : Bytes} {q : Nat}
    {c : UInt8} (hu : Searched b data u) (htext : NextBoundary b u (front ++ c :: rest))
    (hq : data.drop q = front ++ c :: rest) (hptr : s.ptr = q + front.length) (hs : Inside b front s)
    (hstep : multiPartStep x data b s c = .inl t) (ht : t.parseState = .start) : InForm b data (t, text) := by
  have hdrop : data.drop s.ptr = c :: rest := by
    rw [hptr]
    exact drop_add hq
  have hsearch : t.ptr = searchFrom data b s.ptr := by
    cases step_movesOn hstep with
    | jump _ hne _ => exact absurd ht hne
    | next _ hne _ => exact absurd ht hne
    | search _ _ hptr => exact hptr
  obtain ⟨p, hp, htextp, hcase⟩ := hs.leaves hstep ht rest
  rw [← htextp] at htext
  rcases hcase with ⟨hfront, hrest, hend⟩ | ⟨rfl, hrest, hkept⟩
  · have hbare : ¬ p.Bare b := by
      rintro ⟨hlast, -, hstart⟩
      have hat : s.ptr = q + (p.front b).length := by rw [hfront, hptr]
      have hlt := (fieldEnd_lt_iff (hq.trans htextp.symm) hat (by rw [hrest]; simp)).mpr ⟨hlast, hstart⟩
      omega
    refine .between ht (.behind hu hp htext hbare) ?_
    rw [hsearch, hrest]
    exact searchFrom_drop hdrop
  · refine .between ht (.behind hu hp htext fun hbare => hkept hbare.2.1) ?_
    rw [hsearch, hrest]
    exact (searchFrom_drop hdrop).imp_right (nextBoundary_lf hb).mp

/-- **A pass.** -/
theorem InForm.pass (hb : b.head? = some dash) {s t : MultiPart × Bytes} {c : UInt8} (h : InForm b data s)
    (hpass : partPass x data b s c = some t) : InForm b data t := by
  obtain ⟨t, text'⟩ := t
  obtain ⟨hmoved, hnote⟩ := tracked_eq_some.mp hpass
  obtain ⟨hc, hstep⟩ := pass_eq_some.mp hmoved
  dsimp only at hc hstep hnote
  clear hmoved hpass
  unfold notePart at hnote
  cases h with
  | @between s text u hs hu hrest =>
    rw [if_pos hs] at hnote
    rw [← hnote]
    exact .jump hb hs hu hrest hc hstep
  | @inside s u front rest q hu htext hq hptr hs =>
    rw [if_neg hs.ne_start] at hnote
    subst hnote
    obtain ⟨rest', rfl⟩ : ∃ rest', rest = c :: rest' := by
      obtain ⟨hlt, hget⟩ := List.getElem?_eq_some_iff.mp hc
      rw [← drop_add hq, ← hptr]
      exact ⟨_, by rw [List.drop_eq_getElem_cons hlt, hget]⟩
    by_cases ht : t.parseState = .start
    · exact .leave hb hu htext hq hptr hs hstep ht
    · have hmove : t.ptr = s.ptr + 1 := by
        cases step_movesOn hstep with
        | jump hst _ _ => exact absurd hst hs.ne_start
        | next _ _ hptr => exact hptr
        | search _ hst _ => exact absurd hst ht
      have hsplit : front ++ c :: rest' = (front ++ [c]) ++ rest' := by simp
      rw [hsplit] at htext hq ⊢
      refine .inside hu htext hq ?_ (hs.step hstep ht)
      rw [hmove, hptr, List.length_append]
      rfl

/-- The state in front of the loop. -/
def firstState (data b : Bytes) (d : Dict) : MultiPart × Bytes := ({ dict := d, ptr := searchFrom data b 0 }, [])

/-- **Every run is along the parts of the form.** -/
theorem inForm_run (hb : b.head? = some dash) {d : Dict} {cs : Bytes} {s : MultiPart × Bytes}
    (h : exec (partPass x data b) (firstState data b d) cs = some s) : InForm b data s :=
  exec_invariant (fun _ s => InForm b data s) (.between rfl .form (searchFrom_drop List.drop_zero))
    (fun _ _ _ _ _ hs hpass => hs.pass hb hpass) h

/-- Where the data of a part is looked at, that part has been come to. -/
theorem reached_of_run (hb : b.head? = some dash) {d : Dict} {cs : Bytes} {s : MultiPart} {text : Bytes}
    (h : exec (partPass x data b) (firstState data b d) cs = some (s, text)) (hs : s.parseState = .fieldData) :
    ∃ p, Reached b data p ∧ p.Entered ∧ p.text b = text ∧ s.fieldName = p.reading.fieldName ∧
      data.drop s.ptr = p.rest ∧ ∃ q, data.drop q = p.text b ∧ s.ptr = q + (p.front b).length := by
  have hform := inForm_run hb h
  cases hform with
  | between hstart =>
    rw [hs] at hstart
    cases hstart
  | @inside s u front rest q hu htext hq hptr hin =>
    cases hin with
    | @data p f d ptr hp hentered =>
      have hdrop : data.drop ptr = rest := by
        rw [show ptr = q + (p.front b).length from hptr]
        exact drop_add hq
      exact ⟨⟨p.first, p.lines, p.last, rest⟩, ⟨⟨hp.continues, hp.carry⟩, u, hu, htext⟩, hentered, rfl, rfl,
        hdrop, q, hq, hptr⟩
    | @line e ls l =>
      unfold inLine inLineState at hs
      dsimp only at hs
      split_ifs at hs
    | boundary => cases hs
    | firstCr => cases hs
    | lineCr => cases hs
    | lastCr => cases hs

/-! ## The runs there are -/

theorem partPass_of_step {s t : MultiPart} {c : UInt8} (text : Bytes) (hs : s.parseState ≠ .start)
    (hc : data[s.ptr]? = some c) (hstep : multiPartStep x data b s c = .inl t) :
    partPass x data b (s, text) c = some (t, text) :=
  tracked_eq_some.mpr ⟨pass_eq_some.mpr ⟨hc, hstep⟩, if_neg hs⟩

theorem inLine_ne_start (r : PartReading) (l : Bytes) (f : Bool) (d : Dict) (p : Nat) :
    (inLine r l f d p).parseState ≠ .start := by
  unfold inLine inLineState
  dsimp only
  split_ifs
  all_goals simp

/-- Some bytes of a line. -/
theorem exec_inLine (r : PartReading) (f : Bool) (d : Dict) (text rest : Bytes) {l : Bytes}
    (hl : ∀ c ∈ l, LineByte c) : ∀ (l₀ : Bytes) (p : Nat), data.drop p = l ++ rest →
      exec (partPass x data b) (inLine r l₀ f d p, text) l = some (inLine r (l₀ ++ l) f d (p + l.length), text) := by
  induction l with
  | nil =>
    intro l₀ p _
    rw [List.append_nil]
    rfl
  | cons c l ih =>
    intro l₀ p hdrop
    have hc : data[p]? = some c := getElem?_of_drop hdrop
    have hstep : multiPartStep x data b (inLine r l₀ f d p) c = .inl (inLine r (l₀ ++ [c]) f d (p + 1)) :=
      step_inLine r l₀ f d p (hl c List.mem_cons_self)
    have hrest := ih (fun e he => hl e (List.mem_cons_of_mem c he)) (l₀ ++ [c]) (p + 1)
      (drop_add (w := [c]) hdrop)
    rw [exec, partPass_of_step text (inLine_ne_start r l₀ f d p) hc hstep]
    refine hrest.trans ?_
    rw [List.append_assoc, List.singleton_append, List.length_cons, Nat.add_assoc, Nat.add_comm 1]

/-- A line with its end. -/
theorem exec_line {r : PartReading} {l : Bytes} (e : Newline) (f : Bool) (d : Dict) (text rest : Bytes) {p : Nat}
    (hl : ∀ c ∈ l, LineByte c) (hnot : ¬ r.Blank l) (hdrop : data.drop p = l ++ (e.text ++ rest)) :
    exec (partPass x data b) (betweenLines .headerName r f d p, text) (l ++ e.text) =
      some (betweenLines .headerName (r.line l) f d (p + (l ++ e.text).length), text) := by
  have hbytes := exec_inLine (x := x) (b := b) r f d text (e.text ++ rest) hl [] p hdrop
  rw [inLine_nil] at hbytes
  refine exec_trans hbytes ?_
  have hend : data.drop (p + l.length) = e.text ++ rest := drop_add hdrop
  have hstep : ∀ c, c = cr ∨ c = lf → data[p + l.length]? = some c →
      partPass x data b (inLine r ([] ++ l) f d (p + l.length), text) c =
        some (betweenLines (if c = cr then .headerLf else .headerName) (r.line l) f d (p + l.length + 1), text) :=
    fun c hc hget => partPass_of_step text (inLine_ne_start r _ f d _) hget (step_endOfLine hnot f d _ hc)
  cases e with
  | lf =>
    rw [Newline.text_lf] at hend ⊢
    rw [exec, hstep lf (.inr rfl) (getElem?_of_drop hend), List.length_append]
    rfl
  | crlf =>
    rw [Newline.text_crlf] at hend ⊢
    have hlf : data[p + l.length + 1]? = some lf := getElem?_of_drop (drop_add (w := [cr]) hend)
    have hlast : partPass x data b (betweenLines .headerLf (r.line l) f d (p + l.length + 1), text) lf =
        some (betweenLines .headerName (r.line l) f d (p + l.length + 1 + 1), text) :=
      partPass_of_step text (fun h => by cases h) hlf rfl
    rw [exec, hstep cr (.inl rfl) (getElem?_of_drop hend), List.length_append]
    show (partPass x data b (betweenLines .headerLf (r.line l) f d (p + l.length + 1), text) lf).bind _ = _
    rw [hlast]
    rfl

/-- **The header lines of a part.** -/
theorem exec_lines (f : Bool) (d : Dict) (text rest : Bytes) {ls : List (Bytes × Newline)} :
    ∀ {r : PartReading} {p : Nat}, r.Continues ls → data.drop p = linesText ls ++ rest →
      exec (partPass x data b) (betweenLines .headerName r f d p, text) (linesText ls) =
        some (betweenLines .headerName (r.lines ls) f d (p + (linesText ls).length), text) := by
  induction ls with
  | nil => exact fun _ _ => rfl
  | cons l ls ih =>
    intro r p hls hdrop
    have htext : linesText (l :: ls) = (l.1 ++ l.2.text) ++ linesText ls := rfl
    rw [htext, List.append_assoc] at hdrop
    have hline := exec_line (x := x) (b := b) l.2 f d text (linesText ls ++ rest) hls.1 hls.2.1
      (hdrop.trans (List.append_assoc _ _ _))
    rw [htext, List.length_append, ← Nat.add_assoc]
    exact exec_trans hline (ih hls.2.2 (drop_add hdrop))

/-- The end of the line of the boundary. -/
theorem exec_firstLine (e : Newline) (f : Bool) (d : Dict) (text : Bytes) {rest : Bytes} {p : Nat}
    (hdrop : data.drop p = e.text ++ rest) :
    exec (partPass x data b) (betweenLines .headerCr {} f d p, text) e.text =
      some (betweenLines .headerName {} f d (p + e.text.length), text) := by
  cases e with
  | lf =>
    have hlf : partPass x data b (betweenLines .headerCr {} f d p, text) lf =
        some (betweenLines .headerName {} f d (p + 1), text) :=
      partPass_of_step text (fun h => by cases h) (getElem?_of_drop hdrop) rfl
    rw [Newline.text_lf, exec, hlf]
    rfl
  | crlf =>
    have hcr : partPass x data b (betweenLines .headerCr {} f d p, text) cr =
        some (betweenLines .headerLf {} f d (p + 1), text) :=
      partPass_of_step text (fun h => by cases h) (getElem?_of_drop hdrop) rfl
    have hlf : partPass x data b (betweenLines .headerLf {} f d (p + 1), text) lf =
        some (betweenLines .headerName {} f d (p + 1 + 1), text) :=
      partPass_of_step text (fun h => by cases h) (getElem?_of_drop (drop_add (w := [cr]) hdrop)) rfl
    rw [Newline.text_crlf, exec, hcr]
    show (partPass x data b (betweenLines .headerLf {} f d (p + 1), text) lf).bind _ = _
    rw [hlf]
    rfl

/-- The part up to its blank line. -/
theorem exec_headers (hb : b ≠ []) {p : Part} (hp : ({} : PartReading).Continues p.lines) {s : MultiPart}
    (text rest : Bytes) (hs : s.parseState = .start)
    (hdrop : data.drop s.ptr = b ++ (p.first.text ++ (linesText p.lines ++ rest))) :
    ∃ cs, exec (partPass x data b) (s, text) cs =
      some (betweenLines .headerName p.reading s.foundParameter s.dict
        (s.ptr + (b ++ (p.first.text ++ linesText p.lines)).length), data.drop s.ptr) := by
  obtain ⟨c, b', rfl⟩ := List.exists_cons_of_ne_nil hb
  have hjump : partPass x data (c :: b') (s, text) c =
      some (betweenLines .headerCr {} s.foundParameter s.dict (s.ptr + (c :: b').length), data.drop s.ptr) := by
    refine tracked_eq_some.mpr ⟨pass_eq_some.mpr ⟨getElem?_of_drop hdrop, ?_⟩, if_pos hs⟩
    unfold multiPartStep
    rw [hs]
    rfl
  have hfirst : data.drop (s.ptr + (c :: b').length) = p.first.text ++ (linesText p.lines ++ rest) :=
    drop_add hdrop
  have hends := exec_firstLine (x := x) (b := c :: b') p.first s.foundParameter s.dict (data.drop s.ptr) hfirst
  have hlines := exec_lines (x := x) (b := c :: b') s.foundParameter s.dict (data.drop s.ptr) rest hp
    (drop_add hfirst)
  refine ⟨c :: (p.first.text ++ linesText p.lines), ?_⟩
  rw [exec, hjump]
  refine (exec_trans hends hlines).trans ?_
  rw [List.length_append, List.length_append, ← Nat.add_assoc, ← Nat.add_assoc]
  rfl

/-- The first byte of the blank line. -/
theorem exec_blank {r : PartReading} (hr : r.carry = []) (f : Bool) (d : Dict) (text : Bytes) {rest : Bytes}
    {c : UInt8} (hc : c = cr ∨ c = lf) {p : Nat} (hdrop : data.drop p = c :: rest) :
    exec (partPass x data b) (betweenLines .headerName r f d p, text) [c] =
      some (betweenLines (if c = cr then .headerLastLf else .fieldData) r f d (p + 1), text) := by
  have hstep : multiPartStep x data b (inLine r [] f d p) c = _ := step_blank ⟨hr, rfl⟩ f d p hc
  rw [inLine_nil] at hstep
  rw [exec, partPass_of_step text (fun h => by cases h) (getElem?_of_drop hdrop) hstep]
  rfl

/-- A part whose headers end in CRLF, up to the LF of that. -/
theorem exec_lastCr (hb : b ≠ []) {p : Part} (hp : p.Ok) (hlast : p.last = .crlf) {s : MultiPart}
    (text : Bytes) (hs : s.parseState = .start) (hdrop : data.drop s.ptr = p.text b) :
    ∃ cs ptr, exec (partPass x data b) (s, text) cs =
        some (betweenLines .headerLastLf p.reading s.foundParameter s.dict ptr, p.text b) ∧
      data.drop ptr = lf :: p.rest ∧ ptr + 1 = s.ptr + (p.front b).length := by
  have hsplit : p.text b = b ++ (p.first.text ++ (linesText p.lines ++ (cr :: lf :: p.rest))) := by
    simp [Part.text, Part.front, hlast]
  obtain ⟨cs, hrun⟩ := exec_headers (x := x) hb hp.continues text _ hs (hdrop.trans hsplit)
  rw [hdrop] at hrun
  have hblank : data.drop (s.ptr + (b ++ (p.first.text ++ linesText p.lines)).length) = cr :: lf :: p.rest := by
    refine drop_add (hdrop.trans (hsplit.trans ?_))
    simp
  refine ⟨_, _, exec_trans hrun (exec_blank hp.carry _ _ _ (.inl rfl) hblank), drop_add (w := [cr]) hblank, ?_⟩
  have hfront : p.front b = (b ++ (p.first.text ++ linesText p.lines)) ++ [cr, lf] := by
    simp [Part.front, hlast]
  have hlen : (p.front b).length = (b ++ (p.first.text ++ linesText p.lines)).length + 2 := by
    rw [hfront]
    exact List.length_append
  rw [hlen]
  rfl

/-- **A part whose data is looked at**, up to its data. -/
theorem exec_entered (hb : b ≠ []) {p : Part} (hp : p.Ok) (hentered : p.Entered) {s : MultiPart}
    (text : Bytes) (hs : s.parseState = .start) (hdrop : data.drop s.ptr = p.text b) :
    ∃ cs, exec (partPass x data b) (s, text) cs =
      some (betweenLines .fieldData p.reading s.foundParameter s.dict (s.ptr + (p.front b).length), p.text b) := by
  cases hlast : p.last with
  | lf =>
    have hsplit : p.text b = b ++ (p.first.text ++ (linesText p.lines ++ (lf :: p.rest))) := by
      simp [Part.text, Part.front, hlast]
    obtain ⟨cs, hrun⟩ := exec_headers (x := x) hb hp.continues text _ hs (hdrop.trans hsplit)
    rw [hdrop] at hrun
    have hblank : data.drop (s.ptr + (b ++ (p.first.text ++ linesText p.lines)).length) = lf :: p.rest := by
      refine drop_add (hdrop.trans (hsplit.trans ?_))
      simp
    have hfront : p.front b = (b ++ (p.first.text ++ linesText p.lines)) ++ [lf] := by
      simp [Part.front, hlast]
    rw [hfront, List.length_append, ← Nat.add_assoc]
    exact ⟨_, exec_trans hrun (exec_blank hp.carry _ _ _ (.inr rfl) hblank)⟩
  | crlf =>
    obtain ⟨cs, ptr, hrun, hlf, hptr⟩ := exec_lastCr (x := x) hb hp hlast text hs hdrop
    have hkept : p.reading.save = true ∧ p.reading.fieldName ≠ [] := hentered hlast
    have hstep : partPass x data b (betweenLines .headerLastLf p.reading s.foundParameter s.dict ptr, p.text b) lf =
        some (betweenLines .fieldData p.reading s.foundParameter s.dict (ptr + 1), p.text b) := by
      refine partPass_of_step _ (fun h => by cases h) (getElem?_of_drop hlf) ?_
      unfold multiPartStep betweenLines
      dsimp only
      rw [if_pos rfl, if_pos hkept]
      rfl
    rw [← hptr]
    exact ⟨_, exec_snoc.mpr ⟨_, hrun, hstep⟩⟩

/-- **A part that is skipped**, up to the next boundary. -/
theorem exec_skipped (hb : b.head? = some dash) {p : Part} (hp : p.Ok) (hentered : ¬ p.Entered)
    {s : MultiPart} (text : Bytes) (hs : s.parseState = .start) (hdrop : data.drop s.ptr = p.text b)
    {next : Bytes} (hnext : NextBoundary b p.rest next) :
    ∃ cs t, exec (partPass x data b) (s, text) cs = some (t, p.text b) ∧ t.parseState = .start ∧
      data.drop t.ptr = next := by
  have hne : b ≠ [] := by
    rintro rfl
    cases hb
  obtain ⟨hlast, hkept⟩ := Classical.not_imp.mp hentered
  obtain ⟨cs, ptr, hrun, hlf, _⟩ := exec_lastCr (x := x) hne hp hlast text hs hdrop
  have hstep : partPass x data b (betweenLines .headerLastLf p.reading s.foundParameter s.dict ptr, p.text b) lf =
      some (betweenLines .start p.reading s.foundParameter s.dict (searchFrom data b ptr), p.text b) := by
    refine partPass_of_step _ (fun h => by cases h) (getElem?_of_drop hlf) ?_
    have hskip : ¬ (p.reading.save = true ∧ p.reading.fieldName ≠ []) := hkept
    unfold multiPartStep betweenLines
    dsimp only
    rw [if_pos rfl, if_neg hskip]
  exact ⟨_, _, exec_snoc.mpr ⟨_, hrun, hstep⟩, rfl, drop_searchFrom hlf ((nextBoundary_lf hb).mpr hnext)⟩

/-- One that is recorded, likewise. -/
theorem exec_recorded (hb : b ≠ []) {p : Part} (hp : p.Ok) (hentered : p.Entered) (hbare : ¬ p.Bare b)
    {s : MultiPart} (text : Bytes) (hs : s.parseState = .start) (hdrop : data.drop s.ptr = p.text b)
    {next : Bytes} (hnext : NextBoundary b p.rest next) :
    ∃ cs t, exec (partPass x data b) (s, text) cs = some (t, p.text b) ∧ t.parseState = .start ∧
      data.drop t.ptr = next := by
  obtain ⟨cs, hrun⟩ := exec_entered (x := x) hb hp hentered text hs hdrop
  have hrest : data.drop (s.ptr + (p.front b).length) = p.rest := drop_add hdrop
  have hnil : p.rest ≠ [] := by
    intro hnil
    have hstarts := hnext.starts
    obtain ⟨i, _, rfl⟩ := hnext
    rw [hnil, List.drop_nil] at hstarts
    exact hb (List.prefix_nil.mp hstarts)
  have hend : ¬ fieldEnd data (searchFrom data b (s.ptr + (p.front b).length)) <
      s.ptr + (p.front b).length := by
    intro hlt
    obtain ⟨hlast, hstart⟩ := (fieldEnd_lt_iff hdrop rfl hnil).mp hlt
    exact hbare ⟨hlast, hentered hlast, hstart⟩
  obtain ⟨c, rest, hc⟩ := List.exists_cons_of_ne_nil hnil
  generalize s.ptr + (p.front b).length = ptr at hrun hrest hend
  have hstep : partPass x data b (betweenLines .fieldData p.reading s.foundParameter s.dict ptr, p.text b) c =
      some (betweenLines .start p.reading true
        (x.insert s.dict (p.reading.fieldName, (data.take (fieldEnd data (searchFrom data b ptr))).drop ptr))
        (searchFrom data b ptr), p.text b) := by
    refine partPass_of_step _ (fun h => by cases h) (getElem?_of_drop (hrest.trans hc)) ?_
    unfold multiPartStep betweenLines
    dsimp only
    rw [if_neg hend]
  exact ⟨_, _, exec_snoc.mpr ⟨_, hrun, hstep⟩, rfl, drop_searchFrom hrest hnext⟩

/-- The loop comes to every boundary. -/
theorem run_to_boundary (hb : b.head? = some dash) (d : Dict) {u : Bytes} (hu : Searched b data u) :
    ∀ text, NextBoundary b u text → ∃ cs s text', exec (partPass x data b) (firstState data b d) cs = some (s, text') ∧
      s.parseState = .start ∧ data.drop s.ptr = text := by
  have hne : b ≠ [] := by
    rintro rfl
    cases hb
  induction hu with
  | form =>
    intro text htext
    exact ⟨[], _, [], rfl, rfl, drop_searchFrom List.drop_zero htext⟩
  | @behind u p hu hp htext hbare ih =>
    intro next hnext
    obtain ⟨cs, s, text', hrun, hs, hdrop⟩ := ih _ htext
    by_cases hentered : p.Entered
    · obtain ⟨cs', t, hrun', ht, hdropt⟩ := exec_recorded (x := x) hne hp hentered hbare text' hs hdrop hnext
      exact ⟨_, t, _, exec_trans hrun hrun', ht, hdropt⟩
    · obtain ⟨cs', t, hrun', ht, hdropt⟩ := exec_skipped (x := x) hb hp hentered text' hs hdrop hnext
      exact ⟨_, t, _, exec_trans hrun hrun', ht, hdropt⟩

/-- **Where a part has been come to, its data is looked at.** -/
theorem run_of_reached (hb : b.head? = some dash) (d : Dict) {p : Part} (hp : Reached b data p)
    (hentered : p.Entered) :
    ∃ cs s, exec (partPass x data b) (firstState data b d) cs = some (s, p.text b) ∧ s.parseState = .fieldData ∧
      s.fieldName = p.reading.fieldName ∧ data.drop s.ptr = p.rest ∧
      ∃ q, data.drop q = p.text b ∧ s.ptr = q + (p.front b).length := by
  obtain ⟨hok, u, hu, htext⟩ := hp
  have hne : b ≠ [] := by
    rintro rfl
    cases hb
  obtain ⟨cs, s, text', hrun, hs, hdrop⟩ := run_to_boundary (x := x) hb d hu _ htext
  obtain ⟨cs', hrun'⟩ := exec_entered (x := x) hne hok hentered text' hs hdrop
  exact ⟨_, _, exec_trans hrun hrun', rfl, rfl, drop_add hdrop, s.ptr, hdrop, rfl⟩

end Pion.Proof
