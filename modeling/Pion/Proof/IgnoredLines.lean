import Pion.Proof.PartRuns
import Pion.Proof.TextFields
import Pion.Proof.UrlEncoded

/-!
# Header lines that are ignored

A header line of a part that has no value should make no difference. But its name is put in front
of the name of the next header, which then is another header; and a blank line behind it does not
end the headers.
-/

namespace Pion.Proof

open Pion Lib

open FormPart (LineByte)

variable {x : Externals} {data b : Bytes}

/-! ## Forms with any headers -/

/-- A header: a name, a colon and a value. -/
structure ValuedLine (l : Bytes) : Prop where
  byte : ∀ c ∈ l, LineByte c
  name : lineName l ≠ []
  value : lineValue l ≠ []

/-- A line that should make no difference: a name without a colon, or without a value behind it. -/
structure IgnoredLine (l : Bytes) : Prop where
  byte : ∀ c ∈ l, LineByte c
  name : lineName l ≠ []
  value : lineValue l = []
  other : iequals (lineName l) headerContentType = false ∧
    iequals (lineName l) headerContentDisposition = false

/-- A part with its header lines. -/
structure LinedPart where
  lines : List Bytes
  data : Bytes

def withCrlf (ls : List Bytes) : List (Bytes × Newline) := ls.map fun l => (l, .crlf)

namespace LinedPart

/-- The part as it is reached in a form, with what is behind its headers. -/
def part (p : LinedPart) (rest : Bytes) : Part :=
  ⟨.crlf, withCrlf p.lines, .crlf, p.data ++ (stringCrlf ++ rest)⟩

/-- A part, from its boundary to the next one. -/
def text (b : Bytes) (p : LinedPart) : Bytes :=
  b ++ (stringCrlf ++ (linesText (withCrlf p.lines) ++ (stringCrlf ++ (p.data ++ stringCrlf))))

structure WellFormed (b : Bytes) (p : LinedPart) : Prop where
  lines : ∀ l ∈ p.lines, ValuedLine l
  data : ¬ b <:+: p.data

/-- The headers end where they should. -/
structure Ends (b : Bytes) (p : LinedPart) : Prop where
  continues : ({} : PartReading).Continues (withCrlf p.lines)
  carry : (({} : PartReading).lines (withCrlf p.lines)).carry = []
  data : ¬ b <:+: p.data

/-- The name that the part is recorded under, if it is. -/
def field (p : LinedPart) : Option Bytes :=
  let r := ({} : PartReading).lines (withCrlf p.lines)
  if r.Kept then some r.fieldName else none

/-- What the part adds to the dictionary. -/
def entry (p : LinedPart) : Option (Bytes × Bytes) := p.field.map fun name => (name, p.data)

end LinedPart

/-- A form: its parts, and the boundary with two dashes behind it. -/
def formOf (b : Bytes) (parts : List LinedPart) : Bytes :=
  (parts.map (LinedPart.text b)).flatten ++ (b ++ [dash, dash])

/-! ## PartReading them -/

/-- From every state of `P` some passes lead to one of `Q`. -/
def Gets (x : Externals) (data b : Bytes) (P Q : MultiPart → Prop) : Prop :=
  ∀ s, P s → ∃ cs t, exec (pass x data b) s cs = some t ∧ Q t

theorem Gets.trans {P Q R : MultiPart → Prop} (h : Gets x data b P Q) (h' : Gets x data b Q R) :
    Gets x data b P R := by
  intro s hs
  obtain ⟨cs, t, hrun, ht⟩ := h s hs
  obtain ⟨cs', u, hrun', hu⟩ := h' t ht
  exact ⟨cs ++ cs', u, exec_trans hrun hrun', hu⟩

theorem Moves.exec {s t : MultiPart} (h : Moves x data b s t) :
    ∃ cs, exec (pass x data b) s cs = some t := by
  induction h with
  | refl s => exact ⟨[], rfl⟩
  | @step s t u c hc hstep _ _ ih =>
    obtain ⟨cs, hrun⟩ := ih
    refine ⟨c :: cs, ?_⟩
    rw [Lib.exec, pass_eq_some.mpr ⟨hc, hstep⟩]
    exact hrun

theorem Leads.gets {P Q : MultiPart → Prop} (h : Leads x data b P Q) : Gets x data b P Q := by
  intro s hs
  obtain ⟨t, hmoves, ht⟩ := h s hs
  obtain ⟨cs, hrun⟩ := hmoves.exec
  exact ⟨cs, t, hrun, ht⟩

/-- What a part does to the dictionary. -/
def LinedPart.insert (x : Externals) (d : Dict) (p : LinedPart) : Dict := p.entry.elim d (x.insert d)

/-- **One part.** -/
theorem gets_part (hb : b.head? = some dash) (hcr : cr ∉ b) (hlf : lf ∉ b) {p : LinedPart} (hp : p.Ends b)
    {d : Dict} (rest : Bytes) :
    Gets x data b (AtBoundary data d (p.text b ++ (b ++ rest))) (AtBoundary data (p.insert x d) (b ++ rest)) := by
  have hne : b ≠ [] := by
    rintro rfl
    cases hb
  rintro _ ⟨hn, hv, fn, save, ptr, f, rfl, hrest⟩
  generalize hr : ({} : PartReading).lines (withCrlf p.lines) = r
  have hcarry : r.carry = [] := hr ▸ hp.carry
  have hreading : (p.part (b ++ rest)).reading = r := hr
  have htext : data.drop ptr = (p.part (b ++ rest)).text b := by
    rw [hrest]
    simp [LinedPart.text, LinedPart.part, Part.text, Part.front]
  unfold LinedPart.insert LinedPart.entry LinedPart.field
  rw [hr]
  dsimp only
  by_cases hkept : r.Kept
  · obtain ⟨cs, hrun⟩ := exec_entered (x := x) hne (p := p.part (b ++ rest)) ⟨hp.continues, hp.carry⟩
      (fun _ => hreading ▸ hkept) (s := ⟨.start, hn, hv, fn, f, save, d, ptr⟩) [] rfl htext
    have hstate : At data .fieldData [] [] r.fieldName r.save d (p.data ++ (stringCrlf ++ (b ++ rest)))
        (betweenLines .fieldData r f d (ptr + ((p.part (b ++ rest)).front b).length)) := by
      refine ⟨_, f, ?_, drop_add htext⟩
      unfold betweenLines
      rw [hcarry]
    rw [hreading] at hrun
    obtain ⟨cs', t, hrun', ht⟩ := (leads_data (x := x) hne hcr hlf hp.data rest).gets _ hstate
    rw [if_pos hkept]
    exact ⟨cs ++ cs', t, exec_trans (exec_of_tracked hrun) hrun', ht⟩
  · obtain ⟨cs, ptr', hrun, hlf', _⟩ := exec_lastCr (x := x) hne (p := p.part (b ++ rest))
      ⟨hp.continues, hp.carry⟩ rfl (s := ⟨.start, hn, hv, fn, f, save, d, ptr⟩) [] rfl htext
    have hstate : At data .headerLastLf [] [] r.fieldName r.save d
        (lf :: (p.data ++ (stringCrlf ++ (b ++ rest)))) (betweenLines .headerLastLf r f d ptr') := by
      refine ⟨ptr', f, ?_, hlf'⟩
      unfold betweenLines
      rw [hcarry]
    rw [hreading] at hrun
    obtain ⟨cs', t, hrun', ht⟩ := (leads_skip (x := x) hne hcr hlf hp.data hkept rest).gets _ hstate
    rw [if_neg hkept]
    exact ⟨_, t, exec_trans (exec_of_tracked hrun) hrun', ht⟩

theorem formOf_boundary (b : Bytes) (parts : List LinedPart) : ∃ rest, formOf b parts = b ++ rest := by
  cases parts with
  | nil => exact ⟨_, rfl⟩
  | cons p parts =>
    unfold formOf LinedPart.text
    rw [List.map_cons, List.flatten_cons]
    simp only [List.append_assoc]
    exact ⟨_, rfl⟩

/-- **All parts.** -/
theorem gets_parts (hb : b.head? = some dash) (hcr : cr ∉ b) (hlf : lf ∉ b) : ∀ (parts : List LinedPart) (d : Dict),
    (∀ p ∈ parts, p.Ends b) → Gets x data b (AtBoundary data d (formOf b parts))
      (AtBoundary data (parts.foldl (LinedPart.insert x) d) (b ++ [dash, dash])) := by
  intro parts
  induction parts with
  | nil => exact fun d _ s hs => ⟨[], s, rfl, hs⟩
  | cons p parts ih =>
    intro d hparts
    obtain ⟨rest, hrest⟩ := formOf_boundary b parts
    have htext : formOf b (p :: parts) = p.text b ++ (b ++ rest) := by
      rw [← hrest]
      unfold formOf
      rw [List.map_cons, List.flatten_cons, List.append_assoc]
    have hpart : Gets x data b (AtBoundary data d (p.text b ++ (b ++ rest)))
        (AtBoundary data (p.insert x d) (b ++ rest)) :=
      gets_part hb hcr hlf (hparts p List.mem_cons_self) rest
    rw [← hrest] at hpart
    rw [htext, ← hrest]
    exact hpart.trans (ih (p.insert x d) fun q hq => hparts q (List.mem_cons_of_mem p hq))

/-- The entries of the parts, in order. -/
theorem foldl_insert_entries (x : Externals) (parts : List LinedPart) (d : Dict) :
    parts.foldl (LinedPart.insert x) d = (parts.filterMap LinedPart.entry).foldl x.insert d := by
  induction parts generalizing d with
  | nil => rfl
  | cons p parts ih =>
    rw [List.foldl_cons, ih, LinedPart.insert]
    cases he : p.entry with
    | none => rw [List.filterMap_cons_none he]; rfl
    | some e => rw [List.filterMap_cons_some he]; rfl

/-- The boundary of a form. -/
structure Delimiter (b : Bytes) : Prop where
  head : b.head? = some dash
  byte : ∀ c ∈ b, LineByte c

theorem Delimiter.ne_nil {b : Bytes} (h : Delimiter b) : b ≠ [] := by
  rintro rfl
  cases h.head

theorem Delimiter.cr {b : Bytes} (h : Delimiter b) : cr ∉ b := fun hmem => (h.byte _ hmem).1 rfl

theorem Delimiter.lf {b : Bytes} (h : Delimiter b) : lf ∉ b := fun hmem => (h.byte _ hmem).2 rfl

theorem delimiter_of {boundary : Bytes} (h : ∀ c ∈ boundary, LineByte c) : Delimiter (str "--" ++ boundary) := by
  refine ⟨rfl, fun c hc => ?_⟩
  rcases List.mem_append.mp hc with hc | hc
  · exact (show ∀ c ∈ str "--", LineByte c by decide) c hc
  · exact h c hc

/-- A form in front of the loop. -/
theorem atBoundary_form (d : Dict) (parts : List LinedPart) (b : Bytes) :
    AtBoundary (formOf b parts) d (formOf b parts) (firstState (formOf b parts) b d).1 := by
  obtain ⟨rest, hrest⟩ := formOf_boundary b parts
  refine ⟨[], [], [], true, 0, false, ?_, rfl⟩
  unfold firstState searchFrom
  rw [List.drop_zero, findSub_front (by rw [hrest]; exact List.prefix_append _ _)]

theorem parseMultipartFormData_form (x : Externals) (boundary : Bytes) (parts : List LinedPart) (dict : Dict) :
    parseMultipartFormData x dict (str "multipart/form-data; boundary=" ++ boundary)
        (formOf (str "--" ++ boundary) parts) =
      multiPartLoop x (formOf (str "--" ++ boundary) parts) (str "--" ++ boundary)
        (2 * (formOf (str "--" ++ boundary) parts).length + 2)
        (firstState (formOf (str "--" ++ boundary) parts) (str "--" ++ boundary) dict).1 := by
  obtain ⟨rest, hrest⟩ := formOf_boundary (str "--" ++ boundary) parts
  have hdata : formOf (str "--" ++ boundary) parts ≠ [] := by
    rw [hrest]
    exact fun h => by cases h
  unfold parseMultipartFormData
  rw [if_neg hdata, findSub_boundary]
  rfl

/-- The loop behind a run from its beginning. -/
theorem multiPartLoop_of_run {d : Dict} {cs : Bytes} {t : MultiPart}
    (h : exec (pass x data b) (firstState data b d).1 cs = some t) :
    ∃ n, multiPartLoop x data b (2 * data.length + 2) (firstState data b d).1 =
      multiPartLoop x data b (n + 1) t := by
  have hle := length_add_passesLeft h
  unfold passesLeft at hle
  rw [if_pos (show (firstState data b d).1.parseState = .start from rfl)] at hle
  refine ⟨2 * data.length + 1 - cs.length, ?_⟩
  rw [← multiPartLoop_exec h]
  refine congrArg (fun n => multiPartLoop x data b n (firstState data b d).1) ?_
  omega

/-- **A form is read part by part.** -/
theorem parseMultipartFormData_formOf (x : Externals) {boundary : Bytes} (hboundary : ∀ c ∈ boundary, LineByte c)
    {parts : List LinedPart} (hparts : ∀ p ∈ parts, p.Ends (str "--" ++ boundary)) (dict : Dict) :
    parseMultipartFormData x dict (str "multipart/form-data; boundary=" ++ boundary)
        (formOf (str "--" ++ boundary) parts) =
      ((parts.filterMap LinedPart.entry).foldl x.insert dict, .ok true) := by
  have hb := delimiter_of hboundary
  obtain ⟨cs, t, hrun, hend⟩ := (gets_parts (x := x) hb.head hb.cr hb.lf parts dict hparts).trans
    (leads_start hb.ne_nil [dash, dash]).gets _ (atBoundary_form dict parts _)
  obtain ⟨n, hloop⟩ := multiPartLoop_of_run hrun
  rw [parseMultipartFormData_form, hloop, multiPartLoop_end hend, foldl_insert_entries]

/-! ## What the headers say -/

/-- The headers of some lines, as they are written. -/
def headersOf (ls : List Bytes) : List (Bytes × Bytes) := ls.map fun l => (lineName l, lineValue l)

/-- The name that a part with some headers is recorded under, if it is. -/
def fieldOf (hs : List (Bytes × Bytes)) : Option Bytes :=
  let r := hs.foldl (fun r h => r.header h.1 h.2) ({} : PartReading)
  if r.Kept then some r.fieldName else none

theorem header_carry (r : PartReading) (n v : Bytes) : (r.header n v).carry = r.carry := by
  unfold PartReading.header
  split_ifs <;> rfl

theorem line_valued {r : PartReading} (hr : r.carry = []) {l : Bytes} (hl : ValuedLine l) :
    r.line l = r.header (lineName l) (lineValue l) := by
  unfold PartReading.line
  rw [if_neg hl.value, hr, List.nil_append]
  have hcarry := header_carry r (lineName l) (lineValue l)
  rw [hr] at hcarry
  rw [← hcarry]

/-- Headers are read as they are written, if each has a value. -/
theorem lines_valued {r : PartReading} (hr : r.carry = []) {ls : List Bytes} (hls : ∀ l ∈ ls, ValuedLine l) :
    r.Continues (withCrlf ls) ∧
      r.lines (withCrlf ls) = (headersOf ls).foldl (fun r h => r.header h.1 h.2) r ∧
      (r.lines (withCrlf ls)).carry = [] := by
  induction ls generalizing r with
  | nil => exact ⟨trivial, rfl, hr⟩
  | cons l ls ih =>
    have hl := hls l List.mem_cons_self
    have hne : l ≠ [] := by
      rintro rfl
      exact hl.name rfl
    have hline := line_valued hr hl
    obtain ⟨hcontinues, hlines, hcarry⟩ := ih ((header_carry r (lineName l) (lineValue l)).trans hr)
      fun k hk => hls k (List.mem_cons_of_mem l hk)
    rw [← hline] at hcontinues hlines hcarry
    refine ⟨⟨hl.byte, fun h => hne h.2, hcontinues⟩, hlines.trans ?_, hcarry⟩
    rw [hline]
    rfl

theorem withCrlf_append (A B : List Bytes) : withCrlf (A ++ B) = withCrlf A ++ withCrlf B := List.map_append

theorem ValuedLine.ne_nil {l : Bytes} (h : ValuedLine l) : l ≠ [] := by
  rintro rfl
  exact h.name rfl

theorem IgnoredLine.ne_nil {l : Bytes} (h : IgnoredLine l) : l ≠ [] := by
  rintro rfl
  exact h.name rfl

/-- An ignored line is kept in mind. -/
theorem line_ignored {r : PartReading} (hr : r.carry = []) {l : Bytes} (hl : IgnoredLine l) :
    r.line l = { r with carry := lineName l } := by
  unfold PartReading.line
  rw [if_pos hl.value, hr, List.nil_append]

/-- **Its name is put in front of the next one's.** -/
theorem line_behind_ignored {r : PartReading} (hr : r.carry = []) {l h : Bytes} (hl : IgnoredLine l)
    (hh : ValuedLine h) : (r.line l).line h = r.header (lineName l ++ lineName h) (lineValue h) := by
  have hheader : ∀ n v, { ({ r with carry := lineName l } : PartReading).header n v with carry := [] } =
      r.header n v := by
    intro n v
    unfold PartReading.header
    dsimp only
    split_ifs <;> rw [← hr]
  rw [line_ignored hr hl]
  unfold PartReading.line
  rw [if_neg hh.value, hheader]

theorem lines_ignored {A B : List Bytes} {l h : Bytes} (hA : ∀ k ∈ A, ValuedLine k) (hl : IgnoredLine l)
    (hh : ValuedLine h) (hB : ∀ k ∈ B, ValuedLine k) :
    ({} : PartReading).Continues (withCrlf (A ++ l :: h :: B)) ∧
      ({} : PartReading).lines (withCrlf (A ++ l :: h :: B)) =
        (headersOf A ++ (lineName l ++ lineName h, lineValue h) :: headersOf B).foldl
          (fun r h => r.header h.1 h.2) {} ∧
      (({} : PartReading).lines (withCrlf (A ++ l :: h :: B))).carry = [] := by
  obtain ⟨hfront, hlinesA, hcarryA⟩ := lines_valued (r := {}) rfl hA
  generalize hrA : ({} : PartReading).lines (withCrlf A) = r at hlinesA hcarryA
  have hnext : (r.header (lineName l ++ lineName h) (lineValue h)).carry = [] :=
    (header_carry r _ _).trans hcarryA
  obtain ⟨hback, hlinesB, hcarryB⟩ := lines_valued hnext hB
  have hlines : ({} : PartReading).lines (withCrlf (A ++ l :: h :: B)) =
      (r.header (lineName l ++ lineName h) (lineValue h)).lines (withCrlf B) := by
    rw [withCrlf_append, PartReading.lines_append, hrA, ← line_behind_ignored hcarryA hl hh]
    rfl
  rw [hlines]
  refine ⟨?_, ?_, hcarryB⟩
  · rw [withCrlf_append, PartReading.continues_append, hrA]
    refine ⟨hfront, hl.byte, fun hblank => hl.ne_nil hblank.2, hh.byte, fun hblank => hh.ne_nil hblank.2, ?_⟩
    show ((r.line l).line h).Continues (withCrlf B)
    rw [line_behind_ignored hcarryA hl hh]
    exact hback
  · rw [hlinesB, List.foldl_append, ← hlinesA]
    rfl

/-- Behind the last header, an ignored line lets the blank line and what follows go by. -/
theorem lines_swallowed {A : List Bytes} {l : Bytes} (hA : ∀ k ∈ A, ValuedLine k) (hl : IgnoredLine l) :
    ({} : PartReading).Continues (withCrlf (A ++ [l, [], []])) := by
  obtain ⟨hfront, _, hcarry⟩ := lines_valued (r := {}) rfl hA
  have hnil : ∀ c ∈ ([] : Bytes), LineByte c := fun c hc => absurd hc List.not_mem_nil
  have hline := line_ignored hcarry hl
  have hnot : ∀ r : PartReading, r.carry = lineName l → ¬ r.Blank [] ∧ (r.line []).carry = lineName l := by
    intro r hr
    refine ⟨fun hblank => hl.name (hr.symm.trans hblank.1), ?_⟩
    show r.carry ++ lineName [] = lineName l
    rw [hr]
    exact List.append_nil _
  obtain ⟨hfirst, hcarry'⟩ := hnot (({} : PartReading).lines (withCrlf A) |>.line l) (by rw [hline])
  rw [withCrlf_append, PartReading.continues_append]
  exact ⟨hfront, hl.byte, fun hblank => hl.ne_nil hblank.2, hnil, hfirst, hnil, (hnot _ hcarry').1, trivial⟩

/-! ## With the line and without it -/

/-- What is around the headers of a part in a well-formed form. -/
structure Surroundings (b : Bytes) where
  before : List LinedPart
  data : Bytes
  after : List LinedPart
  before_ok : ∀ p ∈ before, p.WellFormed b
  data_ok : ¬ b <:+: data
  after_ok : ∀ p ∈ after, p.WellFormed b

namespace Surroundings

def parts (c : Surroundings b) (lines : List Bytes) : List LinedPart := c.before ++ ⟨lines, c.data⟩ :: c.after

/-- The form in which the part has some lines. -/
def form (c : Surroundings b) (lines : List Bytes) : Bytes := formOf b (c.parts lines)

/-- No other parts, and no data. -/
def nothing (hb : b ≠ []) : Surroundings b where
  before := []
  data := []
  after := []
  before_ok _ h := absurd h List.not_mem_nil
  data_ok h := hb (List.infix_nil.mp h)
  after_ok _ h := absurd h List.not_mem_nil

end Surroundings

/-- The name of the ignored line, in front of that of the header behind it, does not change what
is made of the part: it is recorded under the same name, or in neither case. There has to be a
header behind it. -/
def Unaffected (A : List Bytes) (l : Bytes) : List Bytes → Prop
  | [] => False
  | h :: B => fieldOf (headersOf A ++ (lineName l ++ lineName h, lineValue h) :: headersOf B) =
      fieldOf (headersOf (A ++ h :: B))

/-- It makes no difference to other headers. -/
theorem unaffected_of_other {A B : List Bytes} {l h : Bytes}
    (hname : iequals (lineName h) headerContentType = false ∧ iequals (lineName h) headerContentDisposition = false)
    (hglued : iequals (lineName l ++ lineName h) headerContentType = false ∧
      iequals (lineName l ++ lineName h) headerContentDisposition = false) : Unaffected A l (h :: B) := by
  have hother : ∀ (r : PartReading) (n v : Bytes), iequals n headerContentType = false ∧
      iequals n headerContentDisposition = false → r.header n v = r := by
    rintro r n v ⟨htype, hdisposition⟩
    unfold PartReading.header
    rw [if_neg (Bool.eq_false_iff.mp htype), if_neg (Bool.eq_false_iff.mp hdisposition)]
  show fieldOf _ = fieldOf _
  unfold fieldOf headersOf
  rw [List.map_append, List.map_cons, List.foldl_append, List.foldl_append, List.foldl_cons, List.foldl_cons,
    hother _ _ _ hname, hother _ _ _ hglued]

theorem LinedPart.WellFormed.ends {p : LinedPart} (h : p.WellFormed b) : p.Ends b := by
  obtain ⟨hcontinues, _, hcarry⟩ := lines_valued (r := {}) rfl h.lines
  exact ⟨hcontinues, hcarry, h.data⟩

/-- Other entries around two entries do not hide that they are different. -/
theorem foldl_insert_inj {u v : List (Bytes × Bytes)} {o o' : Option (Bytes × Bytes)} {d : Dict} :
    (u ++ (o.toList ++ v)).foldl x.insert d = (u ++ (o'.toList ++ v)).foldl x.insert d ↔ o = o' := by
  refine ⟨fun h => ?_, fun h => by rw [h]⟩
  have hperm := (foldl_insert_perm x (u ++ (o.toList ++ v)) d).symm.trans
    (h ▸ foldl_insert_perm x (u ++ (o'.toList ++ v)) d)
  have hmiddle := (List.perm_append_right_iff v).mp
    ((List.perm_append_left_iff u).mp ((List.perm_append_right_iff d).mp hperm))
  cases o with
  | none =>
    cases o' with
    | none => rfl
    | some e => exact absurd hmiddle.length_eq (by simp)
  | some e =>
    cases o' with
    | none => exact absurd hmiddle.length_eq (by simp)
    | some e' => exact congrArg some (List.singleton_perm_singleton.mp hmiddle)

/-- The result on a form, if the headers of the part end where they should. -/
theorem parse_surrounded (x : Externals) {boundary : Bytes} (hboundary : ∀ c ∈ boundary, LineByte c)
    (c : Surroundings (str "--" ++ boundary)) {lines : List Bytes}
    (hlines : ({} : PartReading).Continues (withCrlf lines) ∧ (({} : PartReading).lines (withCrlf lines)).carry = [])
    (dict : Dict) :
    parseMultipartFormData x dict (str "multipart/form-data; boundary=" ++ boundary) (c.form lines) =
      ((c.before.filterMap LinedPart.entry ++
          ((LinedPart.mk lines c.data).entry.toList ++ c.after.filterMap LinedPart.entry)).foldl x.insert dict,
        .ok true) := by
  have hentries : (c.parts lines).filterMap LinedPart.entry = c.before.filterMap LinedPart.entry ++
      ((LinedPart.mk lines c.data).entry.toList ++ c.after.filterMap LinedPart.entry) := by
    unfold Surroundings.parts
    rw [List.filterMap_append]
    cases he : (LinedPart.mk lines c.data).entry with
    | none => rw [List.filterMap_cons_none he]; rfl
    | some e => rw [List.filterMap_cons_some he]; rfl
  rw [← hentries]
  refine parseMultipartFormData_formOf x hboundary (fun p hp => ?_) dict
  rcases List.mem_append.mp hp with hp | hp
  · exact (c.before_ok p hp).ends
  · rcases List.mem_cons.mp hp with rfl | hp
    · exact ⟨hlines.1, hlines.2, c.data_ok⟩
    · exact (c.after_ok p hp).ends

/-- A header behind the line. -/
theorem ignoredLine_before {boundary : Bytes} (hboundary : ∀ c ∈ boundary, LineByte c) {A B : List Bytes}
    {l h : Bytes} (hA : ∀ k ∈ A, ValuedLine k) (hl : IgnoredLine l) (hB : ∀ k ∈ h :: B, ValuedLine k)
    (x : Externals) (dict : Dict) (c : Surroundings (str "--" ++ boundary)) :
    parseMultipartFormData x dict (str "multipart/form-data; boundary=" ++ boundary) (c.form (A ++ l :: h :: B)) =
        parseMultipartFormData x dict (str "multipart/form-data; boundary=" ++ boundary) (c.form (A ++ h :: B)) ↔
      Unaffected A l (h :: B) := by
  have hAB : ∀ k ∈ A ++ h :: B, ValuedLine k := fun k hk => (List.mem_append.mp hk).elim (hA k) (hB k)
  obtain ⟨hwithout, hread, hcarry⟩ := lines_valued (r := {}) rfl hAB
  obtain ⟨hwith, hread', hcarry'⟩ := lines_ignored hA hl (hB h List.mem_cons_self)
    fun k hk => hB k (List.mem_cons_of_mem h hk)
  have hfield : (LinedPart.mk (A ++ h :: B) c.data).field = fieldOf (headersOf (A ++ h :: B)) := by
    unfold LinedPart.field fieldOf
    rw [hread]
  have hfield' : (LinedPart.mk (A ++ l :: h :: B) c.data).field =
      fieldOf (headersOf A ++ (lineName l ++ lineName h, lineValue h) :: headersOf B) := by
    unfold LinedPart.field fieldOf
    rw [hread']
  rw [parse_surrounded x hboundary c ⟨hwith, hcarry'⟩, parse_surrounded x hboundary c ⟨hwithout, hcarry⟩,
    Prod.mk.injEq, and_iff_left rfl, foldl_insert_inj]
  unfold LinedPart.entry Unaffected
  rw [hfield, hfield']
  have hinj : Function.Injective fun name : Bytes => (name, c.data) := fun _ _ he => (Prod.mk.inj he).1
  exact (Option.map_injective hinj).eq_iff

/-- **Nothing behind the line.** A form of this one part, without data, is read to its end without
finding any field. -/
theorem ignoredLine_last {boundary : Bytes} (hboundary : ∀ c ∈ boundary, LineByte c) {A : List Bytes} {l : Bytes}
    (hA : ∀ k ∈ A, ValuedLine k) (hl : IgnoredLine l) (x : Externals) (dict : Dict) :
    (parseMultipartFormData x dict (str "multipart/form-data; boundary=" ++ boundary)
      (formOf (str "--" ++ boundary) [⟨A ++ [l], []⟩])).2 = .ok false := by
  rw [parseMultipartFormData_form]
  have hb := delimiter_of hboundary
  generalize str "--" ++ boundary = b at hb
  generalize hdata : formOf b [⟨A ++ [l], []⟩] = data
  have htext : data = b ++ (stringCrlf ++ (linesText (withCrlf (A ++ [l, [], []])) ++ (b ++ [dash, dash]))) := by
    rw [← hdata]
    simp [formOf, LinedPart.text, withCrlf, linesText]
  have hsearch : searchFrom data b 0 = 0 := by
    unfold searchFrom
    rw [List.drop_zero, findSub_front (by rw [htext]; exact List.prefix_append _ _)]
  -- the blank line and the empty line behind it are taken for headers, and so is the boundary
  obtain ⟨cs, hrun⟩ := exec_headers (x := x) hb.ne_nil
    (p := ⟨.crlf, withCrlf (A ++ [l, [], []]), .crlf, []⟩) (lines_swallowed hA hl)
    (s := (firstState data b dict).1) [] (b ++ [dash, dash]) rfl (by
      show data.drop (searchFrom data b 0) = _
      rw [hsearch, List.drop_zero]
      exact htext)
  have hrest : data.drop ((firstState data b dict).1.ptr +
      (b ++ (stringCrlf ++ linesText (withCrlf (A ++ [l, [], []])))).length) = (b ++ [dash, dash]) ++ [] := by
    show data.drop (searchFrom data b 0 + _) = _
    rw [hsearch, Nat.zero_add, List.append_nil]
    refine (congrArg (List.drop _) (htext.trans ?_)).trans List.drop_left
    simp
  have hbytes : ∀ c ∈ b ++ [dash, dash], LineByte c := by
    intro c hc
    rcases List.mem_append.mp hc with hc | hc
    · exact hb.byte c hc
    · exact (show ∀ c ∈ [dash, dash], LineByte c by decide) c hc
  rw [← inLine_nil] at hrun
  have hend := exec_trans hrun (exec_inLine _ _ _ _ [] hbytes [] _ hrest)
  obtain ⟨n, hloop⟩ := multiPartLoop_of_run (exec_of_tracked hend)
  have hnone : data[(firstState data b dict).1.ptr +
      (b ++ (stringCrlf ++ linesText (withCrlf (A ++ [l, [], []])))).length + (b ++ [dash, dash]).length]? = none := by
    rw [List.getElem?_eq_none_iff, ← List.drop_eq_nil_iff]
    exact drop_add hrest
  rw [hloop, multiPartLoop]
  split
  · rfl
  · rename_i c hc
    cases hnone.symm.trans hc

/--
**When a header line that should be ignored makes no difference**: when there is a header behind
it, and the part says the same with the name of the line in front of that header's. If there is
one, a single form around the part tells.
-/
theorem ignoredLine_unaffected_iff {boundary : Bytes} (hboundary : ∀ c ∈ boundary, LineByte c)
    {A B : List Bytes} {l : Bytes} (hA : ∀ k ∈ A, ValuedLine k) (hl : IgnoredLine l)
    (hB : ∀ k ∈ B, ValuedLine k) :
    let parse := fun x dict (c : Surroundings (str "--" ++ boundary)) lines =>
      parseMultipartFormData x dict (str "multipart/form-data; boundary=" ++ boundary) (c.form lines)
    ((∀ x dict c, parse x dict c (A ++ l :: B) = parse x dict c (A ++ B)) ↔ Unaffected A l B) ∧
      (B ≠ [] → ∀ x dict c, parse x dict c (A ++ l :: B) = parse x dict c (A ++ B) ↔ Unaffected A l B) := by
  intro parse
  have hne := (delimiter_of hboundary).ne_nil
  cases B with
  | cons h B =>
    have heach := ignoredLine_before hboundary hA hl hB
    exact ⟨⟨fun hall => (heach plainExternals [] (.nothing hne)).mp (hall _ _ _),
      fun hun x dict c => (heach x dict c).mpr hun⟩, fun _ => heach⟩
  | nil =>
    refine ⟨⟨fun hall => ?_, False.elim⟩, fun hnil => absurd rfl hnil⟩
    have hwith := ignoredLine_last hboundary hA hl plainExternals []
    obtain ⟨hcontinues, _, hcarry⟩ := lines_valued (r := {}) rfl hA
    have hwithout := parse_surrounded plainExternals hboundary (.nothing hne) ⟨hcontinues, hcarry⟩ []
    have hsame := hall plainExternals [] (.nothing hne)
    rw [List.append_nil] at hsame
    have htrue : (parse plainExternals [] (.nothing hne) (A ++ [l])).2 = .ok true := by
      rw [hsame]
      exact congrArg Prod.snd hwithout
    have hfalse : (parse plainExternals [] (.nothing hne) (A ++ [l])).2 = .ok false := hwith
    rw [hfalse] at htrue
    cases htrue

/-- A header with an empty value, in front of one that does not matter. -/
theorem ignoredLine_unaffected_note :
    let front := [str "Content-Disposition: form-data; name=\"f\""]
    let parse := fun lines => parseMultipartFormData plainExternals [] (str "multipart/form-data; boundary=" ++ str "B")
      ((Surroundings.nothing (by decide) : Surroundings (str "--" ++ str "B")).form lines)
    parse (front ++ str "X-Note:" :: [str "X-Lang: en"]) = parse (front ++ [str "X-Lang: en"]) := by
  intro front parse
  have hfront : ∀ l ∈ front, ValuedLine l := by
    intro l hl
    rw [List.mem_singleton.mp hl]
    exact ⟨by decide, by decide, by decide⟩
  have hback : ∀ l ∈ [str "X-Lang: en"], ValuedLine l := by
    intro l hl
    rw [List.mem_singleton.mp hl]
    exact ⟨by decide, by decide, by decide⟩
  have hnote : IgnoredLine (str "X-Note:") := ⟨by decide, by decide, by decide, by decide⟩
  have hother : Unaffected front (str "X-Note:") [str "X-Lang: en"] := unaffected_of_other (by decide) (by decide)
  exact (ignoredLine_unaffected_iff (by decide) hfront hnote hback).1.mpr hother plainExternals [] _

/-- An image; in front of its type, a header with an empty value. -/
theorem ignoredLine_affects :
    let front := [str "Content-Disposition: form-data; name=\"f\""]
    let back := [str "Content-Type: image/png"]
    let parse := fun lines => parseMultipartFormData plainExternals [] (str "multipart/form-data; boundary=B")
      (formOf (str "--B") [⟨lines, str "x"⟩])
    (∀ l ∈ front ++ back, ValuedLine l) ∧ IgnoredLine (str "X-Note:") ∧ ¬ str "--B" <:+: str "x" ∧
      parse (front ++ str "X-Note:" :: back) ≠ parse (front ++ back) := by
  refine ⟨fun l hl => ?_, ⟨by decide, by decide, by decide, by decide⟩, by decide, by decide +kernel⟩
  rcases List.mem_cons.mp hl with rfl | hl
  · exact ⟨by decide, by decide, by decide⟩
  · rw [List.mem_singleton.mp hl]
    exact ⟨by decide, by decide, by decide⟩

end Pion.Proof
