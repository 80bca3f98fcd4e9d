import Pion.Proof.ChunkWriter
import Pion.Proof.Search

/-!
# Multipart forms

`parse_multipart_form_data` walks over the headers of a part byte by byte and jumps over its
data. A form that is written as it should be is read part by part: from one boundary to the
next the loop forgets everything but the dictionary.
-/

namespace Pion.Proof

open Pion Lib

variable {x : Externals}

/-! ## Searching -/

/-- **The first occurrence**, behind text in which there is none and a line end. -/
theorem findSub_first {b : Bytes} (hb : b ≠ []) (hcr : cr ∉ b) (hlf : lf ∉ b) (rest : Bytes) :
    ∀ body : Bytes, ¬ b <:+: body →
      findSub b (body ++ (stringCrlf ++ (b ++ rest))) = some (body.length + 2) := by
  intro body
  induction body with
  | nil =>
    intro _
    have hskip : ∀ a t, a ∉ b → ¬ b <+: a :: t := by
      rintro a t ha h
      exact hb (List.prefix_nil.mp (prefix_of_not_mem (u := []) ha h))
    show findSub b (cr :: lf :: (b ++ rest)) = _
    rw [findSub_cons (hskip cr _ hcr), findSub_cons (hskip lf _ hlf),
      findSub_front (List.prefix_append b rest)]
    rfl
  | cons c body ih =>
    intro hbody
    have hnot : ¬ b <+: c :: (body ++ (stringCrlf ++ (b ++ rest))) := by
      intro h
      exact hbody (prefix_of_not_mem (u := c :: body) hcr h).isInfix
    rw [List.cons_append, findSub_cons hnot, ih fun h => hbody (h.trans (List.suffix_cons c body).isInfix)]
    rfl

/-! ## The form -/

/-- One field of a form. -/
structure FormPart where
  name : Bytes
  /-- What else the disposition line says, behind the name. -/
  parameters : Bytes
  contentType : Option Bytes
  /-- The type line comes before the disposition line. -/
  typeFirst : Bool
  data : Bytes

namespace FormPart

def dispositionLine (p : FormPart) : Bytes :=
  str "Content-Disposition: form-data; name=\"" ++ p.name ++ [quote] ++ p.parameters ++ stringCrlf

def typeLine (t : Bytes) : Bytes := str "Content-Type: " ++ t ++ stringCrlf

def headers (p : FormPart) : Bytes :=
  match p.contentType with
  | none => p.dispositionLine
  | some t => if p.typeFirst then typeLine t ++ p.dispositionLine else p.dispositionLine ++ typeLine t

/-- A part, from its boundary to the next one. -/
def text (b : Bytes) (p : FormPart) : Bytes :=
  b ++ (stringCrlf ++ (p.headers ++ (stringCrlf ++ (p.data ++ stringCrlf))))

/-- No type, or a type of text. -/
def kept (p : FormPart) : Bool :=
  match p.contentType with
  | none => true
  | some t => iequals (t.take 5) (str "text/")

/-- A byte of a line. -/
def LineByte (c : UInt8) : Prop := c ≠ cr ∧ c ≠ lf

instance : DecidablePred LineByte := fun _ => inferInstanceAs (Decidable (_ ∧ _))

structure Ok (b : Bytes) (p : FormPart) : Prop where
  name_ne : p.name ≠ []
  name_byte : ∀ c ∈ p.name, LineByte c ∧ c ≠ quote
  parameter_byte : ∀ c ∈ p.parameters, LineByte c
  type_byte : ∀ t ∈ p.contentType, ∀ c ∈ t, LineByte c
  type_start : ∀ t ∈ p.contentType, ∃ c v, t = c :: v ∧ c ≠ sp
  data : ¬ b <:+: p.data

end FormPart

/-- A form: its parts, and the boundary with two dashes behind it. -/
def formText (b : Bytes) (parts : List FormPart) : Bytes :=
  (parts.map (FormPart.text b)).flatten ++ (b ++ [dash, dash])

/-! ## Runs of the loop -/

section loop

variable (x) (data b : Bytes)

/-- Passes of the loop, each of which moves on. -/
inductive Moves : MultiPart → MultiPart → Prop
  | refl (s : MultiPart) : Moves s s
  | step {s t u : MultiPart} {c : UInt8} (hc : data[s.ptr]? = some c)
      (hstep : multiPartStep x data b s c = .inl t) (hlt : s.ptr < t.ptr) (h : Moves t u) : Moves s u

variable {x data b}

open FormPart (LineByte)

theorem Moves.trans {s t u : MultiPart} (h : Moves x data b s t) (h' : Moves x data b t u) :
    Moves x data b s u := by
  induction h with
  | refl => exact h'
  | step hc hstep hlt _ ih => exact .step hc hstep hlt (ih h')

theorem Moves.ptr_le {s t : MultiPart} (h : Moves x data b s t) : s.ptr ≤ t.ptr := by
  induction h with
  | refl => exact Nat.le_refl _
  | step _ _ hlt _ ih => omega

/-- The distance is fuel enough. -/
theorem Moves.run {s t : MultiPart} (h : Moves x data b s t) : ∀ n, t.ptr - s.ptr ≤ n →
    ∃ m, n ≤ m + (t.ptr - s.ptr) ∧ multiPartLoop x data b n s = multiPartLoop x data b m t := by
  induction h with
  | refl s => exact fun n _ => ⟨n, Nat.le_add_right _ _, rfl⟩
  | @step s t u c hc hstep hlt h ih =>
    intro n hn
    have hle := h.ptr_le
    obtain ⟨k, rfl⟩ : ∃ k, n = k + 1 := ⟨n - 1, by omega⟩
    obtain ⟨m, hm, hrun⟩ := ih k (by omega)
    refine ⟨m, by omega, ?_⟩
    rw [multiPartLoop, hc]
    dsimp only
    rw [hstep]
    exact hrun

/-- From every state of `P` the loop moves to one of `Q`. -/
def Leads (x : Externals) (data b : Bytes) (P Q : MultiPart → Prop) : Prop :=
  ∀ s, P s → ∃ t, Moves x data b s t ∧ Q t

theorem Leads.trans {P Q R : MultiPart → Prop} (h : Leads x data b P Q) (h' : Leads x data b Q R) :
    Leads x data b P R := by
  intro s hs
  obtain ⟨t, hst, ht⟩ := h s hs
  obtain ⟨u, htu, hu⟩ := h' t ht
  exact ⟨u, hst.trans htu, hu⟩

/-- A state in front of `rest`. -/
def At (data : Bytes) (st : MultiPartParseState) (headerName headerValue fieldName : Bytes)
    (save : Bool) (d : Dict) (rest : Bytes) (s : MultiPart) : Prop :=
  ∃ p f, s = ⟨st, headerName, headerValue, fieldName, f, save, d, p⟩ ∧ data.drop p = rest

theorem drop_add {w rest : Bytes} {p : Nat} (h : data.drop p = w ++ rest) :
    data.drop (p + w.length) = rest := by
  rw [← List.drop_drop, h, List.drop_left]

theorem getElem?_of_drop {c : UInt8} {rest : Bytes} {p : Nat} (h : data.drop p = c :: rest) :
    data[p]? = some c := by
  have hfirst : (data.drop p)[0]? = data[p + 0]? := List.getElem?_drop
  rw [h, Nat.add_zero] at hfirst
  exact hfirst.symm

/-- One byte. -/
theorem leads_byte {st st' : MultiPartParseState} {hn hv fn hn' hv' fn' : Bytes} {save save' : Bool}
    {d : Dict} {c : UInt8} {rest : Bytes}
    (hstep : ∀ p f, multiPartStep x data b ⟨st, hn, hv, fn, f, save, d, p⟩ c =
      .inl ⟨st', hn', hv', fn', f, save', d, p + 1⟩) :
    Leads x data b (At data st hn hv fn save d (c :: rest)) (At data st' hn' hv' fn' save' d rest) := by
  rintro _ ⟨p, f, rfl, hrest⟩
  refine ⟨_, .step (getElem?_of_drop hrest) (hstep p f) (Nat.lt_succ_self p) (.refl _), p + 1, f, rfl, ?_⟩
  exact drop_add (w := [c]) hrest

/-- A word that is taken byte by byte. -/
theorem leads_word {P : Bytes → Bytes → MultiPart → Prop} {w : Bytes} (rest : Bytes)
    (h : ∀ u c v, w = u ++ c :: v → ∀ rest, Leads x data b (P u (c :: rest)) (P (u ++ [c]) rest)) :
    Leads x data b (P [] (w ++ rest)) (P w rest) := by
  have hgo : ∀ v u, w = u ++ v → Leads x data b (P u (v ++ rest)) (P w rest) := by
    intro v
    induction v with
    | nil =>
      intro u hw
      rw [List.append_nil] at hw
      rw [hw]
      exact fun s hs => ⟨s, .refl s, hs⟩
    | cons c v ih =>
      intro u hw
      exact (h u c v hw (v ++ rest)).trans
        (ih (u ++ [c]) (by rw [hw, List.append_assoc, List.singleton_append]))
  exact hgo w [] rfl

/-! ## The headers of a part -/

/-- The name of a header, as far as its colon. -/
theorem leads_headerName {fn : Bytes} {save : Bool} {d : Dict} {w : Bytes}
    (hw : ∀ c ∈ w, LineByte c ∧ c ≠ colon) (rest : Bytes) :
    Leads x data b (At data .headerName [] [] fn save d (w ++ rest))
      (At data .headerName w [] fn save d rest) := by
  refine leads_word (P := fun u rest => At data .headerName u [] fn save d rest) rest ?_
  rintro u c v rfl rest
  obtain ⟨⟨hcr, hlf⟩, hcolon⟩ := hw c (by simp)
  refine leads_byte fun p f => ?_
  unfold multiPartStep
  dsimp only
  rw [if_neg fun h => h.elim hcr hlf, if_neg hcolon]
  rfl

/-- A value, behind its first byte. -/
theorem leads_headerValue {hn fn : Bytes} {save : Bool} {d : Dict} {c : UInt8} {w : Bytes}
    (hw : ∀ c ∈ w, LineByte c) (rest : Bytes) :
    Leads x data b (At data .headerValue hn [c] fn save d (w ++ rest))
      (At data .headerValue hn (c :: w) fn save d rest) := by
  refine leads_word (P := fun u rest => At data .headerValue hn (c :: u) fn save d rest) rest ?_
  rintro u e v rfl rest
  obtain ⟨hcr, hlf⟩ := hw e (by simp)
  refine leads_byte fun p f => ?_
  unfold multiPartStep
  dsimp only
  rw [if_neg fun h => h.elim hcr hlf]
  rfl

/-- The line of a header: what its end makes of it is the business of `end_of_value`. -/
theorem leads_headerLine {name value fn fn' : Bytes} {save save' : Bool} {d : Dict}
    (hname : ∀ c ∈ name, LineByte c ∧ c ≠ colon) (hvalue : ∀ c ∈ value, LineByte c)
    (hstart : ∃ c v, value = c :: v ∧ c ≠ sp)
    (hend : ∀ p f, (⟨.headerValue, name, value, fn, f, save, d, p⟩ : MultiPart).endOfValue =
      ⟨.headerValue, [], [], fn', f, save', d, p⟩) (rest : Bytes) :
    Leads x data b (At data .headerName [] [] fn save d (name ++ (colon :: sp :: (value ++ (stringCrlf ++ rest)))))
      (At data .headerName [] [] fn' save' d rest) := by
  obtain ⟨c, v, rfl, hsp⟩ := hstart
  obtain ⟨hcr, hlf⟩ := hvalue c List.mem_cons_self
  have hcolon : Leads x data b (At data .headerName name [] fn save d (colon :: sp :: (c :: v ++ (stringCrlf ++ rest))))
      (At data .headerSpace name [] fn save d (sp :: (c :: v ++ (stringCrlf ++ rest)))) :=
    leads_byte fun _ _ => rfl
  have hspace : Leads x data b (At data .headerSpace name [] fn save d (sp :: (c :: v ++ (stringCrlf ++ rest))))
      (At data .headerSpace name [] fn save d (c :: (v ++ (stringCrlf ++ rest)))) :=
    leads_byte fun _ _ => rfl
  have hfirst : Leads x data b (At data .headerSpace name [] fn save d (c :: (v ++ (stringCrlf ++ rest))))
      (At data .headerValue name [c] fn save d (v ++ (stringCrlf ++ rest))) := by
    refine leads_byte fun p f => ?_
    unfold multiPartStep
    dsimp only
    rw [if_neg hcr, if_neg hlf, if_pos hsp]
    rfl
  have hcrStep : Leads x data b (At data .headerValue name (c :: v) fn save d (stringCrlf ++ rest))
      (At data .headerLf [] [] fn' save' d (lf :: rest)) := by
    refine leads_byte fun p f => ?_
    unfold multiPartStep
    dsimp only
    rw [if_pos (.inl rfl), hend p f]
    rfl
  have hlfStep : Leads x data b (At data .headerLf [] [] fn' save' d (lf :: rest))
      (At data .headerName [] [] fn' save' d rest) :=
    leads_byte fun _ _ => rfl
  exact (leads_headerName hname _).trans (hcolon.trans (hspace.trans (hfirst.trans
    ((leads_headerValue (fun e he => hvalue e (List.mem_cons_of_mem c he)) _).trans
      (hcrStep.trans hlfStep)))))

/-- The disposition line gives the field its name. -/
theorem leads_disposition {p : FormPart} (hp : p.Ok b) {save : Bool} {d : Dict} (rest : Bytes) :
    Leads x data b (At data .headerName [] [] [] save d (p.dispositionLine ++ rest))
      (At data .headerName [] [] p.name save d rest) := by
  have htext : p.dispositionLine ++ rest = headerContentDisposition ++ (colon :: sp ::
      ((str "form-data; name=\"" ++ (p.name ++ quote :: p.parameters)) ++ (stringCrlf ++ rest))) := by
    have hline : str "Content-Disposition: form-data; name=\"" =
        headerContentDisposition ++ (colon :: sp :: str "form-data; name=\"") := by decide
    unfold FormPart.dispositionLine
    rw [hline]
    simp only [List.append_assoc, List.cons_append, List.nil_append]
  have hname : ∀ c ∈ headerContentDisposition, LineByte c ∧ c ≠ colon := by decide
  have hstart : ∃ c v, str "form-data; name=\"" ++ (p.name ++ quote :: p.parameters) = c :: v ∧ c ≠ sp :=
    ⟨102, _, rfl, by decide⟩
  rw [htext]
  refine leads_headerLine hname ?_ hstart ?_ rest
  · intro c hc
    rcases List.mem_append.mp hc with hc | hc
    · exact (show ∀ c ∈ str "form-data; name=\"", LineByte c by decide) c hc
    · rcases List.mem_append.mp hc with hc | hc
      · exact (hp.name_byte c hc).1
      · rcases List.mem_cons.mp hc with rfl | hc
        · decide
        · exact hp.parameter_byte c hc
  · intro q f
    have hfind : findSub (str "name=\"") (str "form-data; name=\"" ++ (p.name ++ quote :: p.parameters)) =
        some 11 := rfl
    have hdrop : (str "form-data; name=\"" ++ (p.name ++ quote :: p.parameters)).drop (11 + 6) =
        p.name ++ quote :: p.parameters := rfl
    unfold MultiPart.endOfValue
    dsimp only
    rw [if_neg (by decide), if_pos (by decide), hfind]
    dsimp only
    rw [hdrop, takeWhile_ne_append fun hq => (hp.name_byte quote hq).2 rfl]
    rfl

/-- The type line decides whether the field is kept. -/
theorem leads_type {p : FormPart} (hp : p.Ok b) {t : Bytes} (ht : p.contentType = some t) {fn : Bytes}
    {save : Bool} {d : Dict} (rest : Bytes) :
    Leads x data b (At data .headerName [] [] fn save d (FormPart.typeLine t ++ rest))
      (At data .headerName [] [] fn p.kept d rest) := by
  have htext : FormPart.typeLine t ++ rest =
      headerContentType ++ (colon :: sp :: (t ++ (stringCrlf ++ rest))) := by
    have hline : str "Content-Type: " = headerContentType ++ [colon, sp] := by decide
    unfold FormPart.typeLine
    rw [hline]
    simp only [List.append_assoc, List.cons_append, List.nil_append]
  have hkept : p.kept = iequals (t.take 5) (str "text/") := by
    unfold FormPart.kept
    rw [ht]
  have hname : ∀ c ∈ headerContentType, LineByte c ∧ c ≠ colon := by decide
  rw [htext]
  refine leads_headerLine hname (hp.type_byte t ht) (hp.type_start t ht) ?_ rest
  intro q f
  unfold MultiPart.endOfValue
  dsimp only
  rw [if_pos (iequals_refl _), hkept]

/-- **The headers of a part**, in either order. -/
theorem leads_headers {p : FormPart} (hp : p.Ok b) {d : Dict} (rest : Bytes) :
    Leads x data b (At data .headerName [] [] [] true d (p.headers ++ rest))
      (At data .headerName [] [] p.name p.kept d rest) := by
  unfold FormPart.headers
  cases ht : p.contentType with
  | none =>
    have hkept : p.kept = true := by
      unfold FormPart.kept
      rw [ht]
    rw [hkept]
    exact leads_disposition hp rest
  | some t =>
    dsimp only
    cases p.typeFirst with
    | true =>
      rw [if_pos rfl, List.append_assoc]
      exact (leads_type hp ht _).trans (leads_disposition hp rest)
    | false =>
      rw [if_neg Bool.false_ne_true, List.append_assoc]
      exact (leads_disposition hp _).trans (leads_type hp ht rest)

/-! ## From one boundary to the next -/

theorem ne_nil_of_search {u : Bytes} (rest : Bytes) : ∃ c v, u ++ (stringCrlf ++ rest) = c :: v := by
  cases u with
  | nil => exact ⟨_, _, rfl⟩
  | cons c u => exact ⟨_, _, rfl⟩

/-- `std::search` from a position finds the next boundary. -/
theorem searchFrom_next (hb : b ≠ []) (hcr : cr ∉ b) (hlf : lf ∉ b) {body rest : Bytes} {p : Nat}
    (hbody : ¬ b <:+: body) (hdrop : data.drop p = body ++ (stringCrlf ++ (b ++ rest))) :
    searchFrom data b p = p + (body.length + 2) := by
  unfold searchFrom
  rw [hdrop, findSub_first hb hcr hlf rest body hbody]

/-- The line end in front of the boundary is not part of the data. -/
theorem fieldEnd_next {body rest : Bytes} {p : Nat}
    (hdrop : data.drop p = body ++ (stringCrlf ++ rest)) :
    fieldEnd data (p + (body.length + 2)) = p + body.length := by
  have hcrlf : data.drop (p + body.length) = stringCrlf ++ rest := drop_add hdrop
  have hc : data[p + body.length]? = some cr := getElem?_of_drop hcrlf
  have hl : data[p + body.length + 1]? = some lf := getElem?_of_drop (drop_add (w := [cr]) hcrlf)
  unfold fieldEnd
  rw [if_pos]
  · omega
  · refine ⟨by omega, ?_, ?_⟩
    · rw [show p + (body.length + 2) - 2 = p + body.length by omega, hc]
    · rw [show p + (body.length + 2) - 1 = p + body.length + 1 by omega, hl]

/-- In front of a boundary, with a dictionary, and otherwise in whatever state. -/
def AtBoundary (data : Bytes) (d : Dict) (rest : Bytes) (s : MultiPart) : Prop :=
  ∃ hn hv fn save, At data .start hn hv fn save d rest s

/-- The boundary is jumped over, and what is left of the last part is cleared. -/
theorem leads_start (hb : b ≠ []) {d : Dict} (rest : Bytes) :
    Leads x data b (AtBoundary data d (b ++ rest)) (At data .headerCr [] [] [] true d rest) := by
  rintro _ ⟨hn, hv, fn, save, p, f, rfl, hrest⟩
  have hpos := List.length_pos_iff.mpr hb
  obtain ⟨c, v, hcv⟩ := List.exists_cons_of_ne_nil hb
  have hc : data[p]? = some c := getElem?_of_drop (by rw [hrest, hcv]; rfl)
  refine ⟨⟨.headerCr, [], [], [], f, true, d, p + (b.length - 1) + 1⟩,
    .step hc rfl (show p < p + (b.length - 1) + 1 by omega) (.refl _), _, f, rfl, ?_⟩
  rw [show p + (b.length - 1) + 1 = p + b.length by omega]
  exact drop_add hrest

/-- Data that is kept. -/
theorem leads_data (hb : b ≠ []) (hcr : cr ∉ b) (hlf : lf ∉ b) {fn body : Bytes} (hbody : ¬ b <:+: body)
    {save : Bool} {d : Dict} (rest : Bytes) :
    Leads x data b (At data .fieldData [] [] fn save d (body ++ (stringCrlf ++ (b ++ rest))))
      (AtBoundary data (x.insert d (fn, body)) (b ++ rest)) := by
  rintro _ ⟨p, f, rfl, hrest⟩
  obtain ⟨c, v, hcv⟩ := ne_nil_of_search (u := body) (b ++ rest)
  have hc : data[p]? = some c := getElem?_of_drop (hrest.trans hcv)
  have hnext := searchFrom_next hb hcr hlf hbody hrest
  have hend := fieldEnd_next hrest
  have hvalue : (data.take (p + body.length)).drop p = body := by
    rw [List.drop_take, hrest, Nat.add_sub_cancel_left, List.take_left]
  refine ⟨⟨.start, [], [], fn, true, save, x.insert d (fn, body), p + (body.length + 2)⟩,
    .step hc ?_ (show p < p + (body.length + 2) by omega) (.refl _), [], [], fn, save, _, true, rfl, ?_⟩
  · unfold multiPartStep
    dsimp only
    rw [hnext, hend, if_neg (by omega), hvalue]
  · have hdrop := drop_add (drop_add hrest)
    rw [Nat.add_assoc] at hdrop
    exact hdrop

/-- Data that is skipped. -/
theorem leads_skip (hb : b ≠ []) (hcr : cr ∉ b) (hlf : lf ∉ b) {fn body : Bytes} (hbody : ¬ b <:+: body)
    {save : Bool} (hskip : ¬ (save = true ∧ fn ≠ [])) {d : Dict} (rest : Bytes) :
    Leads x data b
      (At data .headerLastLf [] [] fn save d (lf :: (body ++ (stringCrlf ++ (b ++ rest)))))
      (AtBoundary data d (b ++ rest)) := by
  rintro _ ⟨p, f, rfl, hrest⟩
  have hbody' : ¬ b <:+: lf :: body := by
    intro h
    rcases List.infix_cons_iff.mp h with h | h
    · exact hb (List.prefix_nil.mp (prefix_of_not_mem (u := []) hlf h))
    · exact hbody h
  have hnext := searchFrom_next hb hcr hlf hbody' hrest
  refine ⟨⟨.start, [], [], fn, f, save, d, p + ((lf :: body).length + 2)⟩,
    .step (getElem?_of_drop hrest) ?_ (show p < p + ((lf :: body).length + 2) by omega) (.refl _),
    [], [], fn, save, _, f, rfl, ?_⟩
  · unfold multiPartStep
    dsimp only
    rw [if_pos rfl, if_neg hskip, hnext]
  · have hdrop := drop_add (drop_add (w := lf :: body) hrest)
    rw [Nat.add_assoc] at hdrop
    exact hdrop

/-- What a part adds to the dictionary. -/
def FormPart.insert (x : Externals) (d : Dict) (p : FormPart) : Dict :=
  if p.kept then x.insert d (p.name, p.data) else d

/-- **One part.** -/
theorem leads_part (hb : b ≠ []) (hcr : cr ∉ b) (hlf : lf ∉ b) {p : FormPart} (hp : p.Ok b) {d : Dict}
    (rest : Bytes) :
    Leads x data b (AtBoundary data d (p.text b ++ (b ++ rest)))
      (AtBoundary data (p.insert x d) (b ++ rest)) := by
  have htext : p.text b ++ (b ++ rest) = b ++ (cr :: lf :: (p.headers ++
      (cr :: lf :: (p.data ++ (stringCrlf ++ (b ++ rest)))))) := by
    unfold FormPart.text
    simp only [List.append_assoc, List.cons_append, List.nil_append]
  have hcrStep : ∀ w, Leads x data b (At data .headerCr [] [] [] true d (cr :: lf :: w))
      (At data .headerLf [] [] [] true d (lf :: w)) := fun w => leads_byte fun _ _ => rfl
  have hlfStep : ∀ w, Leads x data b (At data .headerLf [] [] [] true d (lf :: w))
      (At data .headerName [] [] [] true d w) := fun w => leads_byte fun _ _ => rfl
  have hlast : ∀ w, Leads x data b (At data .headerName [] [] p.name p.kept d (cr :: lf :: w))
      (At data .headerLastLf [] [] p.name p.kept d (lf :: w)) := fun w => leads_byte fun _ _ => rfl
  have hbefore := (leads_start (x := x) hb (d := d) _).trans ((hcrStep _).trans ((hlfStep _).trans
    ((leads_headers hp _).trans (hlast (p.data ++ (stringCrlf ++ (b ++ rest)))))))
  rw [htext]
  refine hbefore.trans ?_
  unfold FormPart.insert
  by_cases hkept : p.kept = true
  · have hkeep : ∀ w, Leads x data b (At data .headerLastLf [] [] p.name true d (lf :: w))
        (At data .fieldData [] [] p.name true d w) := by
      intro w
      refine leads_byte fun q f => ?_
      unfold multiPartStep
      dsimp only
      rw [if_pos rfl, if_pos ⟨rfl, hp.name_ne⟩]
      rfl
    rw [if_pos hkept, hkept]
    exact (hkeep _).trans (leads_data hb hcr hlf hp.data rest)
  · rw [if_neg hkept]
    exact leads_skip hb hcr hlf hp.data (fun h => hkept h.1) rest

/-- A form begins with the boundary. -/
theorem formText_boundary (b : Bytes) (parts : List FormPart) : ∃ rest, formText b parts = b ++ rest := by
  cases parts with
  | nil => exact ⟨_, rfl⟩
  | cons p parts =>
    unfold formText FormPart.text
    rw [List.map_cons, List.flatten_cons]
    simp only [List.append_assoc]
    exact ⟨_, rfl⟩

/-- **All parts.** -/
theorem leads_parts (hb : b ≠ []) (hcr : cr ∉ b) (hlf : lf ∉ b) : ∀ (parts : List FormPart) (d : Dict),
    (∀ p ∈ parts, p.Ok b) → Leads x data b (AtBoundary data d (formText b parts))
      (AtBoundary data (parts.foldl (FormPart.insert x) d) (b ++ [dash, dash])) := by
  intro parts
  induction parts with
  | nil => exact fun d _ s hs => ⟨s, .refl s, hs⟩
  | cons p parts ih =>
    intro d hparts
    obtain ⟨rest, hrest⟩ := formText_boundary b parts
    have htext : formText b (p :: parts) = p.text b ++ (b ++ rest) := by
      rw [← hrest]
      unfold formText
      rw [List.map_cons, List.flatten_cons, List.append_assoc]
    have hpart : Leads x data b (AtBoundary data d (p.text b ++ (b ++ rest)))
        (AtBoundary data (p.insert x d) (b ++ rest)) :=
      leads_part hb hcr hlf (hparts p List.mem_cons_self) rest
    rw [← hrest] at hpart
    rw [htext, ← hrest]
    exact hpart.trans (ih (p.insert x d) fun q hq => hparts q (List.mem_cons_of_mem p hq))

end loop

/-- The entries of the parts that are kept, in order. -/
theorem foldl_insert_kept (x : Externals) (parts : List FormPart) (d : Dict) :
    parts.foldl (FormPart.insert x) d =
      ((parts.filter FormPart.kept).map fun p => (p.name, p.data)).foldl x.insert d := by
  induction parts generalizing d with
  | nil => rfl
  | cons p parts ih =>
    rw [List.foldl_cons, ih, FormPart.insert]
    by_cases hkept : p.kept = true
    · rw [if_pos hkept, List.filter_cons_of_pos hkept, List.map_cons, List.foldl_cons]
    · rw [if_neg hkept, List.filter_cons_of_neg hkept]

theorem findSub_boundary (boundary : Bytes) :
    findSub (str "boundary=") (str "multipart/form-data; boundary=" ++ boundary) = some 21 := rfl

/-- The two dashes behind the last boundary. -/
theorem multiPartLoop_end {data b : Bytes} {d : Dict} {s : MultiPart}
    (hs : At data .headerCr [] [] [] true d [dash, dash] s) (n : Nat) :
    multiPartLoop x data b (n + 1) s = (d, .ok true) := by
  obtain ⟨p, f, rfl, hrest⟩ := hs
  have hfirst : data[p]? = some dash := getElem?_of_drop hrest
  have hsecond : data[p + 1]? = some dash := getElem?_of_drop (drop_add (w := [dash]) hrest)
  have hstep : multiPartStep x data b ⟨.headerCr, [], [], [], f, true, d, p⟩ dash =
      .inr (d, .ok true) := by
    unfold multiPartStep
    dsimp only
    rw [if_neg (by decide), if_neg (by decide), if_pos ⟨rfl, hsecond⟩]
  rw [multiPartLoop, hfirst]
  dsimp only
  rw [hstep]

/-- A form in front of the loop. -/
theorem multiPartLoop_formText {b : Bytes} (hb : b ≠ []) (hcr : cr ∉ b) (hlf : lf ∉ b)
    {parts : List FormPart} (hparts : ∀ p ∈ parts, p.Ok b) (d : Dict) :
    multiPartLoop x (formText b parts) b (2 * (formText b parts).length + 2) { dict := d, ptr := 0 } =
      (parts.foldl (FormPart.insert x) d, .ok true) := by
  have hstart : AtBoundary (formText b parts) d (formText b parts) { dict := d, ptr := 0 } :=
    ⟨[], [], [], true, 0, false, rfl, rfl⟩
  obtain ⟨t, hmoves, hend⟩ := (leads_parts (x := x) hb hcr hlf parts d hparts).trans
    (leads_start hb [dash, dash]) _ hstart
  have hptr : t.ptr ≤ (formText b parts).length := by
    obtain ⟨p, f, rfl, hrest⟩ := hend
    by_contra hlt
    rw [List.drop_eq_nil_of_le (by simp only at hlt; omega)] at hrest
    cases hrest
  obtain ⟨m, hm, hrun⟩ := hmoves.run (2 * (formText b parts).length + 2) (by omega)
  obtain ⟨k, rfl⟩ : ∃ k, m = k + 1 := ⟨m - 1, by omega⟩
  rw [hrun]
  exact multiPartLoop_end hend k

/--
**Multipart forms come apart as they were put together**: what is inserted is the name and the
data of each part that has no type or a type of text, whatever the data looks like.
-/
theorem parseMultipartFormData_formText (x : Externals) (boundary : Bytes)
    (hboundary : ∀ c ∈ boundary, c ≠ cr ∧ c ≠ lf) (parts : List FormPart)
    (hparts : ∀ p ∈ parts, p.Ok (str "--" ++ boundary)) (dict : Dict) :
    parseMultipartFormData x dict (str "multipart/form-data; boundary=" ++ boundary)
        (formText (str "--" ++ boundary) parts) =
      (((parts.filter FormPart.kept).map fun p => (p.name, p.data)).foldl x.insert dict, .ok true) := by
  have hdrop : (str "multipart/form-data; boundary=" ++ boundary).drop (21 + 9) = boundary := rfl
  have hclean : cr ∉ str "--" ++ boundary ∧ lf ∉ str "--" ++ boundary := by
    constructor
    · intro h
      exact (List.mem_append.mp h).elim (by decide) fun h => (hboundary cr h).1 rfl
    · intro h
      exact (List.mem_append.mp h).elim (by decide) fun h => (hboundary lf h).2 rfl
  have hne : str "--" ++ boundary ≠ [] := by
    intro h
    cases h
  obtain ⟨rest, hrest⟩ := formText_boundary (str "--" ++ boundary) parts
  have hdata : formText (str "--" ++ boundary) parts ≠ [] := by
    rw [hrest]
    exact fun h => hne (List.append_eq_nil_iff.mp h).1
  have hsearch : searchFrom (formText (str "--" ++ boundary) parts) (str "--" ++ boundary) 0 = 0 := by
    unfold searchFrom
    rw [List.drop_zero, findSub_front (by rw [hrest]; exact List.prefix_append _ _)]
  unfold parseMultipartFormData
  rw [if_neg hdata, findSub_boundary]
  dsimp only
  rw [hdrop, hsearch, multiPartLoop_formText hne hclean.1 hclean.2 hparts dict, foldl_insert_kept]

/-- Text that looks like headers, a file that is skipped, and no data at all. -/
def someParts : List FormPart :=
  [⟨str "a", [], some (str "TEXT/html"), true, str "-\r\n--B\r\n\r\nContent-Type: image/png"⟩,
    ⟨str "b", str "; filename=\"x\"", some (str "image/png"), false, str "x"⟩,
    ⟨str "c", [], none, false, []⟩]

theorem someParts_ok : ∀ p ∈ someParts, p.Ok (str "--" ++ str "Bound") := by
  have htypes : ∀ p ∈ someParts, ∀ t ∈ p.contentType, t.head? ≠ none ∧ t.head? ≠ some sp := by decide
  have hdata : ∀ p ∈ someParts, ¬ str "--" ++ str "Bound" <:+: p.data := by decide +kernel
  intro p hp
  refine ⟨(show ∀ p ∈ someParts, p.name ≠ [] by decide) p hp,
    (show ∀ p ∈ someParts, ∀ c ∈ p.name, FormPart.LineByte c ∧ c ≠ quote by decide) p hp,
    (show ∀ p ∈ someParts, ∀ c ∈ p.parameters, FormPart.LineByte c by decide) p hp,
    (show ∀ p ∈ someParts, ∀ t ∈ p.contentType, ∀ c ∈ t, FormPart.LineByte c by decide) p hp,
    ?_, hdata p hp⟩
  intro t ht
  obtain ⟨hnone, hsp⟩ := htypes p hp t ht
  cases t with
  | nil => exact absurd rfl hnone
  | cons c v => exact ⟨c, v, rfl, fun h => hsp (congrArg some h)⟩

theorem parseMultipartFormData_someParts :
    parseMultipartFormData plainExternals [] (str "multipart/form-data; boundary=" ++ str "Bound")
        (formText (str "--" ++ str "Bound") someParts) =
      ([(str "a", str "-\r\n--B\r\n\r\nContent-Type: image/png"), (str "c", [])], .ok true) :=
  parseMultipartFormData_formText plainExternals (str "Bound") (by decide) someParts someParts_ok []

end Pion.Proof
