import Pion.Proof.PartHeaders

/-!
# The parts of a form

The passes of the loop of `parse_multipart_form_data`, and what it has read of a part when it is
in some state. The parts it comes to are told by the text of the form alone: a part begins at the
first boundary behind the headers of the part in front.
-/

namespace Pion.Proof

open Pion Lib

open FormPart (LineByte)

variable {x : Externals} {data b : Bytes}

/-! ## Passes -/

/-- A pass of the loop over the byte `c`, if the function goes on behind it. -/
def pass (x : Externals) (data b : Bytes) (s : MultiPart) (c : UInt8) : Option MultiPart :=
  if data[s.ptr]? = some c then (multiPartStep x data b s c).elim some fun _ => none else none

theorem pass_eq_some {s t : MultiPart} {c : UInt8} :
    pass x data b s c = some t ↔ data[s.ptr]? = some c ∧ multiPartStep x data b s c = .inl t := by
  unfold pass
  by_cases hc : data[s.ptr]? = some c
  · rw [if_pos hc]
    cases multiPartStep x data b s c with
    | inl u => simp [hc]
    | inr r => simp
  · simp [hc]

/-- At a boundary, the text from there on is the one of the next part. -/
def notePart (data : Bytes) (s : MultiPart) (_ : UInt8) (text : Bytes) : Bytes :=
  if s.parseState = .start then data.drop s.ptr else text

/-- The passes, with the text of the part that they are in. -/
def partPass (x : Externals) (data b : Bytes) : MultiPart × Bytes → UInt8 → Option (MultiPart × Bytes) :=
  tracked (pass x data b) (notePart data)

/-- How a pass moves on. -/
inductive MovesOn (data b : Bytes) (s t : MultiPart) : Prop
  | jump (hs : s.parseState = .start) (ht : t.parseState ≠ .start) (hptr : t.ptr = s.ptr + (b.length - 1) + 1)
  | next (hs : s.parseState ≠ .start) (ht : t.parseState ≠ .start) (hptr : t.ptr = s.ptr + 1)
  | search (hs : s.parseState = .headerLastLf ∨ s.parseState = .fieldData) (ht : t.parseState = .start)
    (hptr : t.ptr = searchFrom data b s.ptr)

theorem step_movesOn {s t : MultiPart} {c : UInt8} (h : multiPartStep x data b s c = .inl t) :
    MovesOn data b s t := by
  have hgoto : ∀ (s' : MultiPart) (st : MultiPartParseState),
      .inl (s'.goto st) = (Sum.inl t : MultiPart ⊕ (Dict × Except Exn Bool)) → s'.ptr = s.ptr →
      s.parseState ≠ .start → st ≠ .start → MovesOn data b s t := by
    rintro s' st ⟨⟩ hptr hs hst
    exact .next hs hst (congrArg (· + 1) hptr)
  have hend : s.endOfValue.ptr = s.ptr := by
    unfold MultiPart.endOfValue
    dsimp only
    split_ifs
    · rfl
    · cases findSub (str "name=\"") s.headerValue <;> rfl
    · rfl
  unfold multiPartStep at h
  cases hs : s.parseState with
  | start =>
    rw [hs] at h
    cases h
    exact .jump hs (fun h => by cases h) rfl
  | headerCr | headerLf | headerName | headerSpace =>
    rw [hs] at h
    dsimp only at h
    split_ifs at h
    all_goals exact hgoto _ _ h rfl (by rw [hs]; decide) (by decide)
  | headerValue =>
    rw [hs] at h
    dsimp only at h
    split_ifs at h
    · exact hgoto _ _ h hend (by rw [hs]; decide) (by decide)
    · exact hgoto _ _ h hend (by rw [hs]; decide) (by decide)
    · exact hgoto _ _ h rfl (by rw [hs]; decide) (by decide)
  | headerLastLf =>
    rw [hs] at h
    dsimp only at h
    split_ifs at h
    · exact hgoto _ _ h rfl (by rw [hs]; decide) (by decide)
    · cases h
      exact .search (.inl hs) rfl rfl
  | fieldData =>
    rw [hs] at h
    dsimp only at h
    split_ifs at h
    cases h
    exact .search (.inr hs) rfl rfl

theorem searchFrom_le (data b : Bytes) {p : Nat} (hp : p ≤ data.length) : p ≤ searchFrom data b p := by
  unfold searchFrom
  cases findSub b (data.drop p) with
  | none => exact hp
  | some i => exact Nat.le_add_right p i

/-- A bound of the passes that are left. Only a search may stay where it is, and a jump follows. -/
def passesLeft (data : Bytes) (s : MultiPart) : Nat :=
  2 * (data.length - s.ptr) + if s.parseState = .start then 0 else 1

theorem passesLeft_pass {s t : MultiPart} {c : UInt8} (h : pass x data b s c = some t) :
    passesLeft data t < passesLeft data s := by
  obtain ⟨hc, hstep⟩ := pass_eq_some.mp h
  obtain ⟨hlt, _⟩ := List.getElem?_eq_some_iff.mp hc
  unfold passesLeft
  cases step_movesOn hstep with
  | jump hs ht hptr =>
    rw [if_pos hs, if_neg ht, hptr]
    omega
  | next hs ht hptr =>
    rw [if_neg hs, if_neg ht, hptr]
    omega
  | search hs ht hptr =>
    have hle := searchFrom_le data b hlt.le
    have hne : s.parseState ≠ .start := by
      rcases hs with hs | hs
      · rw [hs]
        decide
      · rw [hs]
        decide
    rw [if_neg hne, if_pos ht, hptr]
    omega

/-- **A run comes to its end.** -/
theorem length_add_passesLeft {s t : MultiPart} {cs : Bytes} (h : exec (pass x data b) s cs = some t) :
    cs.length + passesLeft data t ≤ passesLeft data s := by
  induction cs generalizing s with
  | nil =>
    obtain rfl := Option.some.inj h
    exact (Nat.zero_add _).le
  | cons c cs ih =>
    obtain ⟨u, hu, hrest⟩ := Option.bind_eq_some_iff.mp h
    have hlt := passesLeft_pass hu
    have hle := ih hrest
    rw [List.length_cons]
    omega

/-- The loop goes through a run. -/
theorem multiPartLoop_exec {s t : MultiPart} {cs : Bytes} (h : exec (pass x data b) s cs = some t) (n : Nat) :
    multiPartLoop x data b (cs.length + n) s = multiPartLoop x data b n t := by
  induction cs generalizing s with
  | nil =>
    obtain rfl := Option.some.inj h
    rw [List.length_nil, Nat.zero_add]
  | cons c cs ih =>
    obtain ⟨u, hu, hrest⟩ := Option.bind_eq_some_iff.mp h
    obtain ⟨hc, hstep⟩ := pass_eq_some.mp hu
    rw [List.length_cons, Nat.add_right_comm, multiPartLoop, hc]
    dsimp only
    rw [hstep]
    exact ih hrest

/-! ## Lines and their ends -/

inductive Newline where
  | crlf | lf
  deriving DecidableEq

def Newline.text : Newline → Bytes
  | .crlf => stringCrlf
  | .lf => [Pion.lf]

@[simp] theorem Newline.text_crlf : Newline.crlf.text = [cr, Pion.lf] := rfl

@[simp] theorem Newline.text_lf : Newline.lf.text = [Pion.lf] := rfl

/-- Lines with their ends. -/
def linesText (ls : List (Bytes × Newline)) : Bytes := (ls.map fun l => l.1 ++ l.2.text).flatten

namespace PartReading

def lines (r : PartReading) (ls : List (Bytes × Newline)) : PartReading := ls.foldl (fun r l => r.line l.1) r

theorem lines_append (r : PartReading) (ls ms : List (Bytes × Newline)) :
    r.lines (ls ++ ms) = (r.lines ls).lines ms := List.foldl_append

/-- None of the lines ends the headers. -/
def Continues (r : PartReading) : List (Bytes × Newline) → Prop
  | [] => True
  | l :: ls => (∀ c ∈ l.1, LineByte c) ∧ ¬ r.Blank l.1 ∧ (r.line l.1).Continues ls

theorem continues_append {r : PartReading} {ls ms : List (Bytes × Newline)} :
    r.Continues (ls ++ ms) ↔ r.Continues ls ∧ (r.lines ls).Continues ms := by
  induction ls generalizing r with
  | nil => exact (and_iff_right trivial).symm
  | cons l ls ih =>
    rw [List.cons_append, Continues, ih, Continues, and_assoc, and_assoc]
    rfl

theorem Continues.snoc {r : PartReading} {ls : List (Bytes × Newline)} (h : r.Continues ls) {l : Bytes × Newline}
    (hl : ∀ c ∈ l.1, LineByte c) (hnot : ¬ (r.lines ls).Blank l.1) : r.Continues (ls ++ [l]) :=
  continues_append.mpr ⟨h, hl, hnot, trivial⟩

end PartReading

theorem linesText_append (ls ms : List (Bytes × Newline)) :
    linesText (ls ++ ms) = linesText ls ++ linesText ms := by
  unfold linesText
  rw [List.map_append, List.flatten_append]

/-- A part: how the line of its boundary ends, its header lines, the blank line, the rest of the form. -/
structure Part where
  first : Newline
  lines : List (Bytes × Newline)
  last : Newline
  rest : Bytes

namespace Part

/-- The part up to its data. -/
def front (b : Bytes) (p : Part) : Bytes := b ++ (p.first.text ++ (linesText p.lines ++ p.last.text))

/-- The form from the part on. -/
def text (b : Bytes) (p : Part) : Bytes := p.front b ++ p.rest

def reading (p : Part) : PartReading := ({} : PartReading).lines p.lines

/-- The blank line is the first one to end the headers. -/
structure Ok (p : Part) : Prop where
  continues : ({} : PartReading).Continues p.lines
  carry : p.reading.carry = []

/-- Its data is looked at: behind an LF alone, nothing is checked. -/
def Entered (p : Part) : Prop := p.last = .crlf → p.reading.Kept

/-- A field that is recorded, has no data, and has not even a line end in front of the boundary. -/
def Bare (b : Bytes) (p : Part) : Prop := p.last = .crlf ∧ p.reading.Kept ∧ b <+: p.rest

end Part

/-! ## The parts that the loop comes to -/

/-- A text from its first boundary on. -/
def NextBoundary (b u text : Bytes) : Prop := ∃ i, findSub b u = some i ∧ text = u.drop i

/-- The texts in which a boundary is looked for: the form, and what is behind the headers of each
part, as far as the function gets. -/
inductive Searched (b data : Bytes) : Bytes → Prop
  | form : Searched b data data
  | behind {u : Bytes} {p : Part} (hu : Searched b data u) (hp : p.Ok) (htext : NextBoundary b u (p.text b))
    (hbare : ¬ p.Bare b) : Searched b data p.rest

/-- A part that the loop comes to. -/
def Reached (b data : Bytes) (p : Part) : Prop :=
  p.Ok ∧ ∃ u, Searched b data u ∧ NextBoundary b u (p.text b)

theorem NextBoundary.starts {b u text : Bytes} (h : NextBoundary b u text) : b <+: text := by
  obtain ⟨i, hi, rfl⟩ := h
  exact (findSub_some hi).1

theorem drop_searchFrom {p : Nat} {u text : Bytes} (hu : data.drop p = u) (h : NextBoundary b u text) :
    data.drop (searchFrom data b p) = text := by
  obtain ⟨i, hi, rfl⟩ := h
  unfold searchFrom
  rw [hu, hi]
  dsimp only
  rw [← List.drop_drop, hu]

theorem searchFrom_drop {p : Nat} {u : Bytes} (hu : data.drop p = u) :
    data.drop (searchFrom data b p) = [] ∨ NextBoundary b u (data.drop (searchFrom data b p)) := by
  unfold searchFrom
  rw [hu]
  cases hi : findSub b u with
  | none => exact .inl List.drop_length
  | some i =>
    refine .inr ⟨i, hi, ?_⟩
    rw [← List.drop_drop, hu]

/-- An LF is not the beginning of a boundary. -/
theorem nextBoundary_lf (hb : b.head? = some dash) {u text : Bytes} :
    NextBoundary b (lf :: u) text ↔ NextBoundary b u text := by
  have hnot : ¬ b <+: lf :: u := by
    obtain ⟨b', rfl⟩ := List.head?_eq_some_iff.mp hb
    intro h
    exact absurd (List.cons_prefix_cons.mp h).1 (by decide)
  unfold NextBoundary
  rw [findSub_cons hnot]
  constructor
  · rintro ⟨i, hi, rfl⟩
    obtain ⟨j, hj, rfl⟩ := Option.map_eq_some_iff.mp hi
    exact ⟨j, hj, rfl⟩
  · rintro ⟨i, hi, rfl⟩
    exact ⟨i + 1, by rw [hi]; rfl, rfl⟩

/-! ## Where the loop is in a part -/

/-- What the loop has read of a part, and the state that it is in. -/
inductive Inside (b : Bytes) : Bytes → MultiPart → Prop
  | boundary (f : Bool) (d : Dict) (p : Nat) : Inside b b (betweenLines .headerCr {} f d p)
  | firstCr (f : Bool) (d : Dict) (p : Nat) : Inside b (b ++ [cr]) (betweenLines .headerLf {} f d p)
  | line {e : Newline} {ls : List (Bytes × Newline)} {l : Bytes} (f : Bool) (d : Dict) (p : Nat)
    (hls : ({} : PartReading).Continues ls) (hl : ∀ c ∈ l, LineByte c) :
    Inside b (b ++ (e.text ++ (linesText ls ++ l))) (inLine (({} : PartReading).lines ls) l f d p)
  | lineCr {e : Newline} {ls : List (Bytes × Newline)} {l : Bytes} (f : Bool) (d : Dict) (p : Nat)
    (hls : ({} : PartReading).Continues (ls ++ [(l, .crlf)])) :
    Inside b (b ++ (e.text ++ (linesText ls ++ (l ++ [cr]))))
      (betweenLines .headerLf ((({} : PartReading).lines ls).line l) f d p)
  | lastCr {e : Newline} {ls : List (Bytes × Newline)} (f : Bool) (d : Dict) (p : Nat)
    (hls : ({} : PartReading).Continues ls) (hcarry : (({} : PartReading).lines ls).carry = []) :
    Inside b (b ++ (e.text ++ (linesText ls ++ [cr])))
      (betweenLines .headerLastLf (({} : PartReading).lines ls) f d p)
  | data {p : Part} (f : Bool) (d : Dict) (ptr : Nat) (hp : p.Ok) (hentered : p.Entered) :
    Inside b (p.front b) (betweenLines .fieldData p.reading f d ptr)

/-- Behind the end of a line, the next one begins. -/
theorem Inside.nextLine {e : Newline} {ls : List (Bytes × Newline)} {l : Bytes} {e' : Newline} (f : Bool)
    (d : Dict) (p : Nat) (hls : ({} : PartReading).Continues (ls ++ [(l, e')])) :
    Inside b (b ++ (e.text ++ (linesText ls ++ (l ++ e'.text))))
      (betweenLines .headerName ((({} : PartReading).lines ls).line l) f d p) := by
  have hnext := @Inside.line b e _ [] f d p hls (by simp)
  rw [inLine_nil, PartReading.lines_append, linesText_append] at hnext
  simpa [linesText, PartReading.lines] using hnext

/-- A pass in a line. -/
theorem Inside.step_line {e : Newline} {ls : List (Bytes × Newline)} {l : Bytes} (f : Bool) (d : Dict) (p : Nat)
    {t : MultiPart} {c : UInt8} (hls : ({} : PartReading).Continues ls) (hl : ∀ c ∈ l, LineByte c)
    (hstep : multiPartStep x data b (inLine (({} : PartReading).lines ls) l f d p) c = .inl t) :
    Inside b (b ++ (e.text ++ (linesText ls ++ l)) ++ [c]) t := by
  by_cases hc : LineByte c
  · rw [step_inLine _ l f d p hc] at hstep
    cases hstep
    have hline := Inside.line (b := b) (e := e) (l := l ++ [c]) f d (p + 1) hls
      fun k hk => (List.mem_append.mp hk).elim (hl k) fun hk => List.mem_singleton.mp hk ▸ hc
    simpa using hline
  · have hend : c = cr ∨ c = lf := by
      by_contra hnot
      exact hc (not_or.mp hnot)
    by_cases hblank : (({} : PartReading).lines ls).Blank l
    · rw [step_blank hblank f d p hend] at hstep
      cases hstep
      obtain ⟨hcarry, rfl⟩ := hblank
      rcases hend with rfl | rfl
      · have hlast := Inside.lastCr (b := b) (e := e) f d (p + 1) hls hcarry
        simpa using hlast
      · have hdata := Inside.data (b := b) (p := ⟨e, ls, .lf, []⟩) f d (p + 1) ⟨hls, hcarry⟩
          fun h => by cases h
        rw [if_neg (by decide)]
        simpa [Part.front, Part.reading] using hdata
    · have hls' : ∀ e', ({} : PartReading).Continues (ls ++ [(l, e')]) := fun e' => hls.snoc hl hblank
      rw [step_endOfLine hblank f d p hend] at hstep
      cases hstep
      rcases hend with rfl | rfl
      · have hcr := Inside.lineCr (b := b) (e := e) f d (p + 1) (hls' .crlf)
        simpa using hcr
      · have hnext := Inside.nextLine (b := b) (e := e) f d (p + 1) (hls' .lf)
        rw [if_neg (by decide)]
        simpa using hnext

/-- **A pass inside a part.** -/
theorem Inside.step {front : Bytes} {s t : MultiPart} {c : UInt8} (h : Inside b front s)
    (hstep : multiPartStep x data b s c = .inl t) (ht : t.parseState ≠ .start) : Inside b (front ++ [c]) t := by
  cases h with
  | boundary f d p =>
    unfold multiPartStep betweenLines at hstep
    dsimp only at hstep
    split_ifs at hstep with hcr hlf
    · cases hstep
      rw [hcr]
      exact .firstCr f d (p + 1)
    · cases hstep
      rw [hlf]
      have hline := @Inside.line b .lf [] [] f d (p + 1) trivial (by simp)
      rw [inLine_nil] at hline
      exact hline
  | firstCr f d p =>
    unfold multiPartStep betweenLines at hstep
    dsimp only at hstep
    split_ifs at hstep with hlf
    cases hstep
    rw [hlf, List.append_assoc]
    have hline := @Inside.line b .crlf [] [] f d (p + 1) trivial (by simp)
    rw [inLine_nil] at hline
    exact hline
  | @line e ls l f d p hls hl => exact .step_line f d p hls hl hstep
  | @lineCr e ls l f d p hls =>
    unfold multiPartStep betweenLines at hstep
    dsimp only at hstep
    split_ifs at hstep with hlf
    cases hstep
    have hnext : Inside b (b ++ (e.text ++ (linesText ls ++ (l ++ [cr]))) ++ [lf])
        (betweenLines .headerName ((({} : PartReading).lines ls).line l) f d (p + 1)) := by
      simpa using Inside.nextLine (b := b) (e := e) f d (p + 1) hls
    rw [hlf]
    exact hnext
  | @lastCr e ls f d p hls hcarry =>
    unfold multiPartStep betweenLines at hstep
    dsimp only at hstep
    split_ifs at hstep with hlf hkept
    · cases hstep
      have hdata : Inside b (b ++ (e.text ++ (linesText ls ++ [cr])) ++ [lf])
          (betweenLines .fieldData (({} : PartReading).lines ls) f d (p + 1)) := by
        simpa [Part.front, Part.reading] using
          Inside.data (b := b) (p := ⟨e, ls, .crlf, []⟩) f d (p + 1) ⟨hls, hcarry⟩ fun _ => hkept
      rw [hlf]
      exact hdata
    · cases hstep
      exact absurd rfl ht
  | data f d p hp hentered =>
    unfold multiPartStep betweenLines at hstep
    dsimp only at hstep
    split_ifs at hstep
    cases hstep
    exact absurd rfl ht

/-! ## The end of the data -/

theorem text_ends (e : Newline) (ls : List (Bytes × Newline)) : ∃ w, e.text ++ linesText ls = w ++ [lf] := by
  have hend : ∀ e : Newline, ∃ w, e.text = w ++ [lf] := by
    intro e
    cases e with
    | crlf => exact ⟨[cr], rfl⟩
    | lf => exact ⟨[], rfl⟩
  rcases ls.eq_nil_or_concat with rfl | ⟨ls', l, rfl⟩
  · obtain ⟨w, hw⟩ := hend e
    exact ⟨w, by rw [hw]; exact List.append_nil _⟩
  · obtain ⟨w, hw⟩ := hend l.2
    refine ⟨e.text ++ (linesText ls' ++ (l.1 ++ w)), ?_⟩
    simp [linesText, hw]

/-- The two bytes in front of the data. -/
theorem Part.front_ends (b : Bytes) (p : Part) :
    ∃ w, p.front b = w ++ [if p.last = .crlf then cr else lf, lf] := by
  unfold Part.front
  cases p.last with
  | crlf => exact ⟨b ++ (p.first.text ++ linesText p.lines), by simp⟩
  | lf =>
    obtain ⟨w, hw⟩ := text_ends p.first p.lines
    refine ⟨b ++ w, ?_⟩
    rw [← List.append_assoc p.first.text, hw]
    simp

theorem searchFrom_eq_self {ptr : Nat} {u : Bytes} (hu : data.drop ptr = u) (hne : u ≠ []) :
    searchFrom data b ptr = ptr ↔ b <+: u := by
  constructor
  · intro h
    rcases searchFrom_drop (b := b) hu with hnil | hnext
    · rw [h, hu] at hnil
      exact absurd hnil hne
    · rw [h, hu] at hnext
      exact hnext.starts
  · intro h
    unfold searchFrom
    rw [hu, findSub_front h]
    rfl

/-- **When the length of a field is negative**: when the boundary follows the CRLF of the blank
line at once, and that is taken for the one in front of the boundary. -/
theorem fieldEnd_lt_iff {p : Part} {q ptr : Nat} (hq : data.drop q = p.text b)
    (hptr : ptr = q + (p.front b).length) (hrest : p.rest ≠ []) :
    fieldEnd data (searchFrom data b ptr) < ptr ↔ p.last = .crlf ∧ b <+: p.rest := by
  obtain ⟨w, hw⟩ := p.front_ends b
  have hdrop : data.drop ptr = p.rest := by
    rw [hptr]
    exact drop_add hq
  have hback : data.drop (q + w.length) = (if p.last = .crlf then cr else lf) :: lf :: p.rest := by
    refine drop_add (hq.trans ?_)
    rw [Part.text, hw]
    simp
  have hlen : ptr = q + w.length + 2 := by
    rw [hptr, hw, List.length_append]
    rfl
  have hlast : data[ptr - 2]? = some (if p.last = .crlf then cr else lf) := by
    rw [hlen, Nat.add_sub_cancel]
    exact getElem?_of_drop hback
  have hlf : data[ptr - 1]? = some lf := by
    rw [hlen]
    exact getElem?_of_drop (drop_add (w := [_]) hback)
  have hle : ptr ≤ searchFrom data b ptr := by
    refine searchFrom_le data b ?_
    by_contra hgt
    rw [List.drop_eq_nil_of_le (by omega)] at hdrop
    exact hrest hdrop.symm
  rw [← searchFrom_eq_self hdrop hrest]
  generalize hnext : searchFrom data b ptr = next at hle
  unfold fieldEnd
  by_cases hcrlf : 2 ≤ next ∧ data[next - 2]? = some cr ∧ data[next - 1]? = some lf
  · rw [if_pos hcrlf]
    obtain ⟨_, hcr, hlf'⟩ := hcrlf
    constructor
    · intro hlt
      -- the byte in front of `ptr` is no CR, so it is not the CRLF one byte further
      have hsame : next = ptr := by
        by_contra hne
        have hone : next - 2 = ptr - 1 := by omega
        rw [hone, hlf] at hcr
        exact absurd (Option.some.inj hcr) (by decide)
      subst hsame
      rw [hlast] at hcr
      refine ⟨?_, rfl⟩
      by_contra hne
      rw [if_neg hne] at hcr
      exact absurd (Option.some.inj hcr) (by decide)
    · rintro ⟨_, rfl⟩
      omega
  · rw [if_neg hcrlf]
    constructor
    · intro hlt
      omega
    · rintro ⟨hcr, rfl⟩
      rw [if_pos hcr] at hlast
      exact absurd ⟨by omega, hlast, hlf⟩ hcrlf

/-- The passes that end a part. -/
theorem Inside.leaves {front : Bytes} {s t : MultiPart} {c : UInt8} (h : Inside b front s)
    (hstep : multiPartStep x data b s c = .inl t) (ht : t.parseState = .start) (rest : Bytes) :
    ∃ p : Part, p.Ok ∧ p.text b = front ++ c :: rest ∧
      ((p.front b = front ∧ p.rest = c :: rest ∧ s.ptr ≤ fieldEnd data (searchFrom data b s.ptr)) ∨
        (c = lf ∧ p.rest = rest ∧ ¬ p.reading.Kept)) := by
  cases h with
  | boundary f d p =>
    unfold multiPartStep betweenLines at hstep
    dsimp only at hstep
    split_ifs at hstep
    all_goals
      cases hstep
      cases ht
  | firstCr f d p =>
    unfold multiPartStep betweenLines at hstep
    dsimp only at hstep
    split_ifs at hstep
    cases hstep
    cases ht
  | @line e ls l f d p hls hl =>
    cases step_movesOn hstep with
    | jump _ hne _ => exact absurd ht hne
    | next _ hne _ => exact absurd ht hne
    | search hs _ _ =>
      exfalso
      unfold inLine inLineState at hs
      dsimp only at hs
      split_ifs at hs
      all_goals simp at hs
  | @lineCr e ls l f d p hls =>
    unfold multiPartStep betweenLines at hstep
    dsimp only at hstep
    split_ifs at hstep
    cases hstep
    cases ht
  | @lastCr e ls f d p hls hcarry =>
    unfold multiPartStep betweenLines at hstep
    dsimp only at hstep
    split_ifs at hstep with hlf hkept
    · cases hstep
      cases ht
    · refine ⟨⟨e, ls, .crlf, rest⟩, ⟨hls, hcarry⟩, ?_, .inr ⟨hlf, rfl, hkept⟩⟩
      simp [Part.text, Part.front, hlf]
  | @data p f d ptr hp hentered =>
    unfold multiPartStep betweenLines at hstep
    dsimp only at hstep
    split_ifs at hstep with hlt
    exact ⟨⟨p.first, p.lines, p.last, c :: rest⟩, ⟨hp.continues, hp.carry⟩, rfl,
      .inl ⟨rfl, rfl, not_lt.mp hlt⟩⟩

end Pion.Proof
