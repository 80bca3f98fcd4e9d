import Pion.Proof.MultipartSafety

/-!
# Which fields are recorded

A pair should be recorded from a part only if the part has a name, and no `Content-Type` or one
of text. The loop looks at that behind the CRLF of a blank line, but not behind an LF alone. And
what it looks at is its own reading of the headers, which need not be what they say.
-/

namespace Pion.Proof

open Pion Lib

open FormPart (LineByte)

variable {x : Externals} {data b : Bytes}

/-! ## What the headers of a part say -/

def stripCr (l : Bytes) : Bytes := if l.getLast? = some cr then l.dropLast else l

/-- The lines of a text, whether they end in CRLF or in LF alone. -/
def textLines (t : Bytes) : List Bytes := (t.splitOn lf).map stripCr

/-- The header lines of a part: those behind the line of its boundary, up to the first that is empty. -/
def headerLines (b text : Bytes) : List Bytes := ((textLines (text.drop b.length)).drop 1).takeWhile (· ≠ [])

/-- The values of the `Content-Type` headers among some lines. -/
def contentTypes (ls : List Bytes) : List Bytes :=
  (ls.filter fun l => l.contains colon && iequals (lineName l) headerContentType).map lineValue

/-- There is no `Content-Type`, or the last one is of text. -/
def OfText (ls : List Bytes) : Prop := ∀ t ∈ (contentTypes ls).getLast?, isText t = true

instance (ls : List Bytes) : Decidable (OfText ls) :=
  inferInstanceAs (Decidable (∀ t ∈ (contentTypes ls).getLast?, isText t = true))

theorem textLines_line {l : Bytes} (hl : ∀ c ∈ l, LineByte c) (e : Newline) (rest : Bytes) :
    textLines (l ++ (e.text ++ rest)) = l :: textLines rest := by
  have hlf : lf ∉ l := fun h => (hl lf h).2 rfl
  unfold textLines
  cases e with
  | lf =>
    have hstrip : stripCr l = l := if_neg fun h => (hl cr (List.mem_of_getLast? h)).1 rfl
    rw [Newline.text_lf, List.singleton_append, List.splitOn_append_cons_self_of_not_mem hlf, List.map_cons, hstrip]
  | crlf =>
    have hcrlf : lf ∉ l ++ [cr] := by
      intro h
      exact (List.mem_append.mp h).elim hlf (by decide)
    have hstrip : stripCr (l ++ [cr]) = l := by
      unfold stripCr
      rw [List.getLast?_concat, if_pos rfl, List.dropLast_concat]
    have htext : l ++ (Newline.crlf.text ++ rest) = (l ++ [cr]) ++ lf :: rest := by simp
    rw [htext, List.splitOn_append_cons_self_of_not_mem hcrlf, List.map_cons, hstrip]

theorem PartReading.Continues.lineByte {r : PartReading} {ls : List (Bytes × Newline)} (h : r.Continues ls) :
    ∀ l ∈ ls, ∀ c ∈ l.1, LineByte c := by
  induction ls generalizing r with
  | nil => exact fun l hl => absurd hl List.not_mem_nil
  | cons k ls ih =>
    intro l hl
    rcases List.mem_cons.mp hl with rfl | hl
    · exact h.1
    · exact ih h.2.2 l hl

theorem textLines_lines {ls : List (Bytes × Newline)} (hls : ∀ l ∈ ls, ∀ c ∈ l.1, LineByte c) (rest : Bytes) :
    textLines (linesText ls ++ rest) = ls.map Prod.fst ++ textLines rest := by
  induction ls with
  | nil => rfl
  | cons l ls ih =>
    have htext : linesText (l :: ls) ++ rest = l.1 ++ (l.2.text ++ (linesText ls ++ rest)) := by
      simp [linesText]
    rw [htext, textLines_line (hls l List.mem_cons_self), ih fun k hk => hls k (List.mem_cons_of_mem l hk)]
    rfl

namespace Part

/-- The header lines of a part. -/
def headers (p : Part) : List Bytes := (p.lines.map Prod.fst).takeWhile (· ≠ [])

theorem headerLines_text {p : Part} (hp : p.Ok) (b : Bytes) : headerLines b (p.text b) = p.headers := by
  have htext : (p.text b).drop b.length =
      [] ++ (p.first.text ++ (linesText p.lines ++ ([] ++ (p.last.text ++ p.rest)))) := by
    unfold Part.text Part.front
    rw [List.append_assoc, List.drop_left]
    simp
  have hnil : ∀ c ∈ ([] : Bytes), LineByte c := fun c hc => absurd hc List.not_mem_nil
  unfold headerLines headers
  rw [htext, textLines_line hnil, textLines_lines hp.continues.lineByte, textLines_line hnil, List.drop_one,
    List.tail_cons, List.takeWhile_append]
  split
  · rename_i hlen
    rw [(List.takeWhile_prefix _).eq_of_length hlen, List.takeWhile_cons_of_neg (by simp), List.append_nil]
  · rfl

end Part

/-! ## What is recorded -/

/-- The pair that a pass over the data of a field inserts. -/
def recordedPair (data b : Bytes) (s : MultiPart) : Bytes × Bytes :=
  (s.fieldName, (data.take (fieldEnd data (searchFrom data b s.ptr))).drop s.ptr)

/-- The pass over the data of a field. -/
theorem step_fieldData {s : MultiPart} (hs : s.parseState = .fieldData) (c : UInt8) :
    multiPartStep x data b s c =
      if fieldEnd data (searchFrom data b s.ptr) < s.ptr then .inr (s.dict, .error .lengthError)
      else .inl { s with
        dict := x.insert s.dict (recordedPair data b s)
        foundParameter := true
        parseState := .start
        ptr := searchFrom data b s.ptr } := by
  unfold multiPartStep
  rw [hs]
  rfl

/-- A pair that is inserted in a run that starts from `s₀`, and the text of the part it comes from. -/
def Records (x : Externals) (data b : Bytes) (s₀ : MultiPart × Bytes) (text : Bytes) (pair : Bytes × Bytes) :
    Prop :=
  ∃ cs s c t, exec (partPass x data b) s₀ cs = some (s, text) ∧ s.parseState = .fieldData ∧
    pass x data b s c = some t ∧ pair = recordedPair data b s

/-- Only the passes over the data of a field change the dictionary. -/
theorem step_dict (x : Externals) (data b : Bytes) (s : MultiPart) (c : UInt8) :
    match multiPartStep x data b s c with
    | .inl t => t.dict = if s.parseState = .fieldData then x.insert s.dict (recordedPair data b s) else s.dict
    | .inr r => r.1 = s.dict := by
  have hend : s.endOfValue.dict = s.dict := by
    unfold MultiPart.endOfValue
    dsimp only
    split_ifs
    · rfl
    · cases findSub (str "name=\"") s.headerValue <;> rfl
    · rfl
  unfold multiPartStep recordedPair
  cases hs : s.parseState with
  | start => rfl
  | fieldData =>
    simp only [↓reduceIte]
    split_ifs <;> rfl
  | headerValue =>
    simp only [reduceCtorEq, ↓reduceIte]
    split_ifs
    · exact hend
    · exact hend
    · rfl
  | headerCr | headerLf | headerName | headerSpace | headerLastLf =>
    simp only [reduceCtorEq, ↓reduceIte]
    split_ifs <;> rfl

/-- **The dictionary gets the pairs that are recorded**, in their order. -/
theorem multiPartLoop_records (n : Nat) (s₀ : MultiPart × Bytes) : ∃ pairs : List (Bytes × Bytes × Bytes),
    (multiPartLoop x data b n s₀.1).1 = (pairs.map Prod.snd).foldl x.insert s₀.1.dict ∧
      ∀ pair ∈ pairs, Records x data b s₀ pair.1 pair.2 := by
  induction n generalizing s₀ with
  | zero => exact ⟨[], rfl, fun _ h => absurd h List.not_mem_nil⟩
  | succ n ih =>
    rw [multiPartLoop]
    cases hc : data[s₀.1.ptr]? with
    | none => exact ⟨[], rfl, fun _ h => absurd h List.not_mem_nil⟩
    | some c =>
      have hdict := step_dict x data b s₀.1 c
      dsimp only
      cases hstep : multiPartStep x data b s₀.1 c with
      | inr r =>
        rw [hstep] at hdict
        exact ⟨[], hdict, fun _ h => absurd h List.not_mem_nil⟩
      | inl t =>
        rw [hstep] at hdict
        dsimp only at hdict ⊢
        have hpass : pass x data b s₀.1 c = some t := pass_eq_some.mpr ⟨hc, hstep⟩
        obtain ⟨pairs, hpairs, hall⟩ := ih (t, notePart data s₀.1 c s₀.2)
        have hlater : ∀ pair ∈ pairs, Records x data b s₀ pair.1 pair.2 := by
          intro pair hpair
          obtain ⟨cs, s, e, u, hrun, hs, hu, heq⟩ := hall pair hpair
          refine ⟨c :: cs, s, e, u, ?_, hs, hu, heq⟩
          have hfirst : partPass x data b s₀ c = some (t, notePart data s₀.1 c s₀.2) :=
            tracked_eq_some.mpr ⟨hpass, rfl⟩
          rw [exec, hfirst]
          exact hrun
        rw [hpairs]
        by_cases hs : s₀.1.parseState = .fieldData
        · rw [if_pos hs] at hdict
          refine ⟨(s₀.2, recordedPair data b s₀.1) :: pairs, by rw [hdict]; rfl, ?_⟩
          intro pair hpair
          rcases List.mem_cons.mp hpair with rfl | hpair
          · exact ⟨[], s₀.1, c, t, rfl, hs, hpass, rfl⟩
          · exact hlater pair hpair
        · rw [if_neg hs] at hdict
          exact ⟨pairs, by rw [hdict], hlater⟩

/-- So it does in `parse_multipart_form_data`. -/
theorem parseMultipartFormData_records (x : Externals) (dict : Dict) (contentType data : Bytes) :
    ∃ pairs : List (Bytes × Bytes × Bytes),
      (parseMultipartFormData x dict contentType data).1 = (pairs.map Prod.snd).foldl x.insert dict ∧
        ∀ pair ∈ pairs, ∃ b ∈ boundaryOf contentType, Records x data b (firstState data b dict) pair.1 pair.2 := by
  rcases parseMultipartFormData_loop x dict contentType data with ⟨found, hfound⟩ | ⟨b, hb, hloop⟩
  · exact ⟨[], by rw [hfound]; rfl, fun _ h => absurd h List.not_mem_nil⟩
  · obtain ⟨pairs, hpairs, hall⟩ := multiPartLoop_records (x := x) (b := b) (2 * data.length + 2)
      (firstState data b dict)
    exact ⟨pairs, by rw [hloop, hpairs]; rfl, fun pair hpair => ⟨b, hb, hall pair hpair⟩⟩

/-- Every pair that is recorded has a name, and comes from a part that is no file. -/
def OnlyTextFields (x : Externals) (dict : Dict) (contentType data : Bytes) : Prop :=
  ∀ b ∈ boundaryOf contentType, ∀ text pair, Records x data b (firstState data b dict) text pair →
    pair.1 ≠ [] ∧ OfText (headerLines b text)

/-- **What is recorded of a part that the loop has come to**: its data, unless its headers end in
CRLF and it is not kept, or has no data. -/
theorem records_iff (hb : b.head? = some dash) {d : Dict} {P : Bytes → Bytes → Prop} :
    (∀ text pair, Records x data b (firstState data b d) text pair → P text pair.1) ↔
      ∀ p, Reached b data p → p.rest ≠ [] → p.Entered → ¬ p.Bare b → P (p.text b) p.reading.fieldName := by
  constructor
  · intro h p hp hrest hentered hbare
    obtain ⟨cs, s, hrun, hs, hname, hdrop, q, hq, hptr⟩ := run_of_reached (x := x) hb d hp hentered
    obtain ⟨c, rest, hc⟩ := List.exists_cons_of_ne_nil hrest
    have hend : ¬ fieldEnd data (searchFrom data b s.ptr) < s.ptr := by
      intro hlt
      obtain ⟨hlast, hstart⟩ := (fieldEnd_lt_iff hq hptr hrest).mp hlt
      exact hbare ⟨hlast, hentered hlast, hstart⟩
    have hstep : multiPartStep x data b s c = _ := step_fieldData hs c
    rw [if_neg hend] at hstep
    have ht := pass_eq_some.mpr ⟨getElem?_of_drop (hdrop.trans hc), hstep⟩
    have hP := h _ _ ⟨cs, s, c, _, hrun, hs, ht, rfl⟩
    unfold recordedPair at hP
    rwa [hname] at hP
  · rintro h text pair ⟨cs, s, c, t, hrun, hs, ht, rfl⟩
    obtain ⟨p, hp, hentered, rfl, hname, hdrop, q, hq, hptr⟩ := reached_of_run hb hrun hs
    obtain ⟨hc, hstep⟩ := pass_eq_some.mp ht
    have hrest : p.rest ≠ [] := by
      intro hnil
      rw [hnil, List.drop_eq_nil_iff, ← List.getElem?_eq_none_iff] at hdrop
      rw [hdrop] at hc
      cases hc
    have hbare : ¬ p.Bare b := by
      rintro ⟨hlast, -, hstart⟩
      have hlt := (fieldEnd_lt_iff hq hptr hrest).mpr ⟨hlast, hstart⟩
      rw [step_fieldData hs, if_pos hlt] at hstep
      cases hstep
    have hP := h p hp hrest hentered hbare
    rwa [← hname] at hP

/-- The loop takes a part for text whose last `Content-Type` is another one: that line has no
value, or the name of a line without a value is put in front of its own, or makes a later line
look like a `Content-Type` of text. -/
def Part.Misread (p : Part) : Prop := p.reading.save = true ∧ ¬ OfText p.headers

/--
**When only text fields are recorded**: when each part that the loop comes to whose headers end in
an LF alone has a name and is no file; and none that has a name, and whose headers end in CRLF,
is misread.
-/
theorem onlyTextFields_iff (x : Externals) (dict : Dict) (contentType data : Bytes) :
    OnlyTextFields x dict contentType data ↔
      ∀ b ∈ boundaryOf contentType, ∀ p, Reached b data p → p.rest ≠ [] →
        (p.last = .lf → p.reading.fieldName ≠ [] ∧ OfText p.headers) ∧
        (p.last = .crlf → p.reading.fieldName ≠ [] → ¬ p.Bare b → ¬ p.Misread) := by
  have hparts : OnlyTextFields x dict contentType data ↔ ∀ b ∈ boundaryOf contentType, ∀ p, Reached b data p →
      p.rest ≠ [] → p.Entered → ¬ p.Bare b → p.reading.fieldName ≠ [] ∧ OfText (headerLines b (p.text b)) :=
    forall₂_congr fun b hb => records_iff (P := fun text name => name ≠ [] ∧ OfText (headerLines b text))
      (boundaryOf_head hb)
  rw [hparts]
  constructor
  · intro h b hb p hp hrest
    have hpart := h b hb p hp hrest
    rw [Part.headerLines_text hp.1] at hpart
    constructor
    · intro hlast
      refine hpart (fun hcrlf => ?_) fun hbare => ?_
      · rw [hlast] at hcrlf
        cases hcrlf
      · have hcrlf := hbare.1
        rw [hlast] at hcrlf
        cases hcrlf
    · rintro hlast hname hbare ⟨hsave, htext⟩
      exact htext (hpart (fun _ => ⟨hsave, hname⟩) hbare).2
  · intro h b hb p hp hrest hentered hbare
    obtain ⟨hlf, hcrlf⟩ := h b hb p hp hrest
    rw [Part.headerLines_text hp.1]
    cases hlast : p.last with
    | lf => exact hlf hlast
    | crlf =>
      obtain ⟨hsave, hname⟩ := hentered hlast
      refine ⟨hname, ?_⟩
      by_contra htext
      exact hcrlf hlast hname hbare ⟨hsave, htext⟩

/-- An image, in lines that end in LF. -/
def imagePart : Part where
  first := .lf
  lines := [(str "Content-Disposition: form-data; name=\"f\"", .lf), (str "Content-Type: image/png", .lf)]
  last := .lf
  rest := str "x" ++ stringCrlf ++ str "--B--"

theorem imagePart_recorded :
    ¬ OnlyTextFields plainExternals [] (str "multipart/form-data; boundary=B") (imagePart.text (str "--B")) := by
  intro h
  have hreached : Reached (str "--B") (imagePart.text (str "--B")) imagePart :=
    ⟨⟨⟨by decide, by decide, by decide, by decide, trivial⟩, by decide⟩, _, .form, 0, by decide, rfl⟩
  obtain ⟨_, htext⟩ := (records_iff (P := fun text name => name ≠ [] ∧ OfText (headerLines (str "--B") text)) rfl).mp
    (h (str "--B") (by decide)) imagePart hreached (by decide) (fun h => by cases h) fun h => by cases h.1
  exact absurd htext (by decide)

end Pion.Proof
