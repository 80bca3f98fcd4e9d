import Pion.Proof.RoundTrip

/-!
# The version of a request line

What `parse_headers` makes of the text between `HTTP/` and the end of the line. It
should be two decimal numbers with a dot between them, then nothing but blanks, and the
request should hold these two numbers.

The states of the loop take more than that. The blanks behind the minor number are
skipped in the state that reads the number, so digits behind a blank go on with it; and
both numbers are kept in sixteen bits. `version_stored_iff` says that these two are the
only ways in which the stored version can differ from the one that was sent.
-/

namespace Pion.Proof

open Pion Lib

variable {x : Externals}

/-! ## Numbers -/

/-- The number that a string of decimal digits writes. -/
def decimalNumber (w : Bytes) : Nat := w.foldl (fun n c => n * 10 + (c.toNat - 48)) 0

/-- A string of one or more decimal digits. -/
structure Digits (w : Bytes) : Prop where
  ne : w ≠ []
  digit : ∀ c ∈ w, isDigit c = true

/-- A version number is kept modulo `2 ^ 16`. -/
theorem readDigits_eq (w : Bytes) : readDigits w = UInt16.ofNat (decimalNumber w) := by
  have hfold : ∀ (v : Bytes) (n : Nat),
      v.foldl (fun n c => n * 10 + digitValue c) (UInt16.ofNat n) =
        UInt16.ofNat (v.foldl (fun n c => n * 10 + (c.toNat - 48)) n) := by
    intro v
    induction v with
    | nil =>
      intro n
      rfl
    | cons c v ih =>
      intro n
      rw [List.foldl_cons, List.foldl_cons, ← ih (n * 10 + (c.toNat - 48)), UInt16.ofNat_add,
        UInt16.ofNat_mul]
      rfl
  exact hfold w 0

theorem readDigits_toNat {w : Bytes} (h : decimalNumber w < 2 ^ 16) :
    (readDigits w).toNat = decimalNumber w := by
  rw [readDigits_eq, UInt16.toNat_ofNat']
  exact Nat.mod_eq_of_lt h

/-- The digits in front of a text. -/
theorem splitDigits (text : Bytes) : ∃ w rest, text = w ++ rest ∧ (∀ c ∈ w, isDigit c = true) ∧
    ∀ c v, rest = c :: v → isDigit c = false := by
  induction text with
  | nil => exact ⟨[], [], rfl, fun c hc => (by cases hc), fun c v hv => (by cases hv)⟩
  | cons c text ih =>
    by_cases hc : isDigit c = true
    · obtain ⟨w, rest, rfl, hw, hrest⟩ := ih
      refine ⟨c :: w, rest, rfl, ?_, hrest⟩
      intro d hd
      rcases List.mem_cons.mp hd with rfl | hd
      · exact hc
      · exact hw d hd
    · refine ⟨[], c :: text, rfl, fun d hd => (by cases hd), ?_⟩
      rintro d v ⟨⟩
      exact Bool.eq_false_iff.mpr hc

/-- They can be read off it. -/
theorem takeDigits {w rest : Bytes} (hw : ∀ c ∈ w, isDigit c = true)
    (hrest : ∀ c v, rest = c :: v → isDigit c = false) :
    (w ++ rest).takeWhile isDigit = w ∧ (w ++ rest).dropWhile isDigit = rest := by
  rw [List.takeWhile_append_of_pos hw, List.dropWhile_append_of_pos hw]
  cases rest with
  | nil => exact ⟨List.append_nil w, rfl⟩
  | cons c v =>
    have hc := hrest c v rfl
    rw [List.takeWhile_cons_of_neg (by rw [hc]; exact Bool.false_ne_true),
      List.dropWhile_cons_of_neg (by rw [hc]; exact Bool.false_ne_true)]
    exact ⟨List.append_nil w, rfl⟩

/-! ## What a line says, and what is taken -/

/-- A version as it should be sent: two numbers, then blanks. -/
structure VersionText (major minor text : Bytes) : Prop where
  major_digits : Digits major
  minor_digits : Digits minor
  text_eq : ∃ k, text = major ++ dot :: (minor ++ List.replicate k sp)

/-- What the version states take: two numbers, then blanks with more digits among them. -/
structure Tolerated (major minor tail text : Bytes) : Prop where
  major_digits : Digits major
  minor_digits : Digits minor
  /-- The minor number ends at a blank. -/
  parted : ∀ c v, tail = c :: v → c = sp
  tail_bytes : ∀ c ∈ tail, c = sp ∨ isDigit c = true
  text_eq : text = major ++ dot :: (minor ++ tail)

/-- No digit stands behind a blank, and the two numbers fit into sixteen bits. -/
def VersionFits (text : Bytes) : Prop :=
  ∀ major minor tail, Tolerated major minor tail text →
    (∀ c ∈ tail, c = sp) ∧ decimalNumber major < 2 ^ 16 ∧ decimalNumber minor < 2 ^ 16

theorem VersionText.tolerated {major minor text : Bytes} (h : VersionText major minor text) :
    ∃ k, Tolerated major minor (List.replicate k sp) text := by
  obtain ⟨k, hk⟩ := h.text_eq
  refine ⟨k, h.major_digits, h.minor_digits, ?_, ?_, hk⟩
  · intro c v hv
    exact List.eq_of_mem_replicate (hv ▸ List.mem_cons_self)
  · intro c hc
    exact Or.inl (List.eq_of_mem_replicate hc)

theorem Tolerated.versionText {major minor tail text : Bytes} (h : Tolerated major minor tail text)
    (hsp : ∀ c ∈ tail, c = sp) : VersionText major minor text :=
  ⟨h.major_digits, h.minor_digits, tail.length,
    by rw [← List.eq_replicate_of_mem hsp]; exact h.text_eq⟩

/-- A text can be taken apart in one way only. -/
theorem Tolerated.unique {text a b u a' b' u' : Bytes} (h : Tolerated a b u text)
    (h' : Tolerated a' b' u' text) : a = a' ∧ b = b' ∧ u = u' := by
  have hdot : ∀ w c v, dot :: w = c :: v → isDigit c = false := by
    rintro w c v ⟨⟩
    rfl
  have hsp : ∀ {w : Bytes}, (∀ c v, w = c :: v → c = sp) → ∀ c v, w = c :: v → isDigit c = false := by
    intro w hw c v hv
    rw [hw c v hv]
    rfl
  have hfront := takeDigits h.major_digits.digit (hdot (b ++ u))
  have hfront' := takeDigits h'.major_digits.digit (hdot (b' ++ u'))
  rw [← h.text_eq] at hfront
  rw [← h'.text_eq, hfront.1, hfront.2] at hfront'
  have hback := takeDigits h.minor_digits.digit (hsp h.parted)
  have hback' := takeDigits h'.minor_digits.digit (hsp h'.parted)
  rw [← (List.cons.inj hfront'.2).2, hback.1, hback.2] at hback'
  exact ⟨hfront'.1, hback'.1, hback'.2⟩

/-! ## The version states -/

theorem headerScanner_error {s t : HeaderState} {c : UInt8} {rest : Bytes} {e : ErrorValue}
    (h : headerSwitch x (s.1.recordRaw [c], s.2) c = headerError t e) :
    (headerScanner x).run s (c :: rest) = .stop (some e) t (c :: rest) :=
  Scanner.ofSymbols_stop (f := headerStep x) h

/-- The loop stops with `ERROR_VERSION_CHAR`. -/
def RejectsVersion (o : Outcome HeaderState (Option ErrorValue) UInt8) : Prop :=
  ∃ s rest, o = .stop (some .versionChar) s rest

theorem rejectsVersion {s : HeaderState} {c : UInt8}
    (h : headerSwitch x (s.1.recordRaw [c], s.2) c =
      headerError (s.1.recordRaw [c], s.2) .versionChar) (rest : Bytes) :
    RejectsVersion ((headerScanner x).run s (c :: rest)) :=
  ⟨_, _, headerScanner_error h⟩

section states

variable {s : HeaderState} {c : UInt8}

theorem rejects_majorStart (hs : s.1.headersParseState = .httpVersionMajorStart)
    (hc : isDigit c = false) (rest : Bytes) :
    RejectsVersion ((headerScanner x).run s (c :: rest)) := by
  refine rejectsVersion ?_ _
  obtain ⟨⟨st, code, msg, method, resource, query, raw, name, value, save⟩, m⟩ := s
  obtain rfl : st = .httpVersionMajorStart := hs
  unfold headerSwitch
  dsimp only [HeaderFields.recordRaw]
  rw [if_pos (by simp [hc])]

theorem rejects_major (hs : s.1.headersParseState = .httpVersionMajor) (hdot : c ≠ dot)
    (hc : isDigit c = false) (rest : Bytes) :
    RejectsVersion ((headerScanner x).run s (c :: rest)) := by
  refine rejectsVersion ?_ _
  obtain ⟨⟨st, code, msg, method, resource, query, raw, name, value, save⟩, m⟩ := s
  obtain rfl : st = .httpVersionMajor := hs
  unfold headerSwitch
  dsimp only [HeaderFields.recordRaw]
  rw [if_neg hdot, if_neg (by simp [hc])]

theorem rejects_minorStart (hs : s.1.headersParseState = .httpVersionMinorStart)
    (hc : isDigit c = false) (rest : Bytes) :
    RejectsVersion ((headerScanner x).run s (c :: rest)) := by
  refine rejectsVersion ?_ _
  obtain ⟨⟨st, code, msg, method, resource, query, raw, name, value, save⟩, m⟩ := s
  obtain rfl : st = .httpVersionMinorStart := hs
  unfold headerSwitch
  dsimp only [HeaderFields.recordRaw]
  rw [if_pos (by simp [hc])]

end states

theorem readDot (p : HeaderFields) (m : HttpRequest) (rest : Bytes) :
    (headerScanner x).run ({ p with headersParseState := .httpVersionMajor }, m) (dot :: rest) =
      (headerScanner x).run
        ({ p with headersParseState := .httpVersionMinorStart }.recordRaw [dot], m) rest :=
  headerScanner_take rfl

/-- The state behind the minor number takes blanks and digits. -/
theorem readVersionTail {w : Bytes} (rest : Bytes) : ∀ (p : HeaderFields) (m : HttpRequest),
    (∀ c ∈ w, c = sp ∨ isDigit c = true) →
    ∃ (q : HeaderFields) (m' : HttpRequest),
      (headerScanner x).run ({ p with headersParseState := .httpVersionMinor }, m) (w ++ rest) =
        (headerScanner x).run ({ q with headersParseState := .httpVersionMinor }, m') rest ∧
      m'.versionMajor = m.versionMajor ∧ ((∀ c ∈ w, c = sp) → m'.versionMinor = m.versionMinor) := by
  induction w with
  | nil =>
    intro p m _
    exact ⟨p, m, rfl, rfl, fun _ => rfl⟩
  | cons c w ih =>
    intro p m hw
    have hws : ∀ d ∈ w, d = sp ∨ isDigit d = true := fun d hd => hw d (List.mem_cons_of_mem c hd)
    rcases hw c List.mem_cons_self with rfl | hc
    · -- a blank leaves the number as it is
      have hstep : headerSwitch x ({ p with headersParseState := .httpVersionMinor }.recordRaw [sp], m)
          sp = .take ({ p.recordRaw [sp] with headersParseState := .httpVersionMinor }, m) := rfl
      obtain ⟨q, m', hrun, hmajor, hminor⟩ := ih (p.recordRaw [sp]) m hws
      refine ⟨q, m', ?_, hmajor, fun h => hminor fun d hd => h d (List.mem_cons_of_mem sp hd)⟩
      rw [List.cons_append, headerScanner_take hstep]
      exact hrun
    · -- a digit goes on with it
      let m₁ : HttpRequest :=
        { m with versionMinor := m.versionMinor * 10 + digitValue c, firstLine := [] }
      have hstep : headerSwitch x ({ p with headersParseState := .httpVersionMinor }.recordRaw [c], m)
          c = .take ({ p.recordRaw [c] with headersParseState := .httpVersionMinor }, m₁) := by
        unfold headerSwitch
        dsimp only [HeaderFields.recordRaw]
        rw [if_neg (isDigit.ne hc rfl), if_neg (isDigit.ne hc rfl), if_neg (isDigit.ne hc rfl), if_pos hc]
      obtain ⟨q, m', hrun, hmajor, _⟩ := ih (p.recordRaw [c]) m₁ hws
      refine ⟨q, m', ?_, hmajor, fun h => ?_⟩
      · rw [List.cons_append, headerScanner_take hstep]
        exact hrun
      · exact absurd (h c List.mem_cons_self) (isDigit.ne hc rfl)

/-- Any other byte of the line stops it. -/
theorem rejects_minor {w : Bytes} (rest : Bytes) : ∀ s : HeaderState,
    s.1.headersParseState = .httpVersionMinor → (∀ c ∈ w, c ≠ cr ∧ c ≠ lf) →
    (¬ ∀ c ∈ w, c = sp ∨ isDigit c = true) →
    RejectsVersion ((headerScanner x).run s (w ++ rest)) := by
  induction w with
  | nil =>
    intro s _ _ hbad
    exact absurd (fun c hc => (by cases hc)) hbad
  | cons c w ih =>
    intro s hs hline hbad
    obtain ⟨⟨st, code, msg, method, resource, query, raw, name, value, save⟩, m⟩ := s
    obtain rfl : st = .httpVersionMinor := hs
    by_cases hc : c = sp ∨ isDigit c = true
    · obtain ⟨q, m', hrun, _, _⟩ := readVersionTail (x := x) (w := [c]) (w ++ rest)
        ⟨.httpVersionMinor, code, msg, method, resource, query, raw, name, value, save⟩ m
        (fun d hd => List.mem_singleton.mp hd ▸ hc)
      rw [List.cons_append, ← List.singleton_append, hrun]
      refine ih _ rfl (fun d hd => hline d (List.mem_cons_of_mem c hd)) (fun hw => hbad ?_)
      intro d hd
      rcases List.mem_cons.mp hd with rfl | hd
      · exact hc
      · exact hw d hd
    · rw [not_or] at hc
      have hcl := hline c List.mem_cons_self
      refine rejectsVersion ?_ _
      unfold headerSwitch
      dsimp only [HeaderFields.recordRaw]
      rw [if_neg hc.1, if_neg hcl.1, if_neg hcl.2, if_neg hc.2]

/-! ## Behind the request line -/

/-- The states behind the first line end. -/
def AfterLine : HeaderParseState → Prop
  | .expectingNewline | .expectingCr | .headerWhitespace | .headerStart | .headerName
  | .spaceBeforeHeaderValue | .headerValue | .expectingFinalNewline | .expectingFinalCr => True
  | _ => False

/-- A state behind the request line, with this version. -/
structure Versioned (major minor : UInt16) (s : HeaderState) : Prop where
  after : AfterLine s.1.headersParseState
  major : s.2.versionMajor = major
  minor : s.2.versionMinor = minor

/-- A step that leaves the version alone, and does not complain about it. -/
def KeepsVersion (major minor : UInt16) : HeaderAction → Prop
  | .take s => Versioned major minor s
  | .stop r s _ => r ≠ some .versionChar ∧ Versioned major minor s

section after

variable {major minor : UInt16} {s : HeaderState}

theorem KeepsVersion.ite {q : Prop} [Decidable q] {a b : HeaderAction}
    (ha : KeepsVersion major minor a) (hb : KeepsVersion major minor b) :
    KeepsVersion major minor (if q then a else b) := by
  split
  · exact ha
  · exact hb

theorem keepsVersion_goto (h : Versioned major minor s) {st : HeaderParseState} (hst : AfterLine st) :
    KeepsVersion major minor (headerGoto s st) :=
  ⟨hst, h.major, h.minor⟩

theorem keepsVersion_error (h : Versioned major minor s) {e : ErrorValue} (he : e ≠ .versionChar) :
    KeepsVersion major minor (headerError s e) :=
  ⟨fun hs => he (Option.some.inj hs), h⟩

theorem keepsVersion_done (h : Versioned major minor s) (u : Bool) :
    KeepsVersion major minor (.stop none s u) :=
  ⟨fun hs => (by cases hs), h⟩

theorem keepsVersion_startName (h : Versioned major minor s) (c : UInt8) :
    KeepsVersion major minor (startHeaderName s c) :=
  .ite (keepsVersion_error h (by decide)) ⟨trivial, h.major, h.minor⟩

theorem headerSwitch_versioned (h : Versioned major minor s) (c : UInt8) :
    KeepsVersion major minor (headerSwitch x s c) := by
  obtain ⟨⟨st, code, msg, method, resource, query, raw, name, value, save⟩, m⟩ := s
  have hafter : AfterLine st := h.after
  have hadd : Versioned major minor (addHeader x (⟨st, code, msg, method, resource, query, raw, name,
      value, save⟩, m)) := ⟨h.after, h.major, h.minor⟩
  have htake : ∀ p : HeaderFields, AfterLine p.headersParseState →
      KeepsVersion major minor (.take (p, m)) := fun p hp => ⟨hp, h.major, h.minor⟩
  unfold headerSwitch
  cases st <;> dsimp only
  case expectingNewline =>
    refine .ite (.ite (keepsVersion_done h true) (keepsVersion_goto h trivial)) ?_
    refine .ite (keepsVersion_done h true) (.ite (keepsVersion_goto h trivial) ?_)
    exact keepsVersion_startName h c
  case expectingCr =>
    refine .ite (keepsVersion_goto h trivial) (.ite (keepsVersion_done h true) ?_)
    exact .ite (keepsVersion_goto h trivial) (keepsVersion_startName h c)
  case headerWhitespace =>
    refine .ite (keepsVersion_goto h trivial) (.ite (keepsVersion_goto h trivial) ?_)
    exact .ite (keepsVersion_startName h c) h
  case headerStart =>
    refine .ite (keepsVersion_goto h trivial) (.ite (keepsVersion_goto h trivial) ?_)
    exact .ite (keepsVersion_goto h trivial) (keepsVersion_startName h c)
  case headerName =>
    refine .ite (htake _ trivial) (.ite (keepsVersion_error h (by decide)) ?_)
    exact .ite (keepsVersion_error h (by decide)) (htake _ trivial)
  case spaceBeforeHeaderValue =>
    refine .ite (keepsVersion_goto h trivial) (.ite (keepsVersion_goto hadd trivial) ?_)
    refine .ite (keepsVersion_goto hadd trivial) (.ite (keepsVersion_error h (by decide)) ?_)
    exact htake _ trivial
  case headerValue =>
    refine .ite (keepsVersion_goto hadd trivial) (.ite (keepsVersion_goto hadd trivial) ?_)
    refine .ite (keepsVersion_error h (by decide)) (.ite (keepsVersion_error h (by decide)) ?_)
    exact htake _ trivial
  case expectingFinalNewline => exact keepsVersion_done h _
  case expectingFinalCr => exact keepsVersion_done h _
  all_goals exact hafter.elim

theorem headerStep_versioned (h : Versioned major minor s) (c : UInt8) :
    KeepsVersion major minor (headerStep x s c) :=
  headerSwitch_versioned (s := (s.1.recordRaw [c], s.2)) ⟨h.after, h.major, h.minor⟩ c

/-- What the loop leaves has this version, and it does not stop because of the version. -/
def EndsVersioned (major minor : UInt16) : Outcome HeaderState (Option ErrorValue) UInt8 → Prop
  | .more s => Versioned major minor s
  | .stop r s _ => r ≠ some .versionChar ∧ Versioned major minor s

/-- **Behind the request line, the version stays.** -/
theorem headerScanner_versioned : ∀ (buf : Bytes) (s : HeaderState), Versioned major minor s →
    EndsVersioned major minor ((headerScanner x).run s buf) := by
  intro buf
  induction buf with
  | nil =>
    intro s h
    rw [Scanner.run_nil]
    exact h
  | cons c cs ih =>
    intro s h
    have hstep := headerStep_versioned (x := x) h c
    cases hs : headerStep x s c with
    | take t =>
      rw [hs] at hstep
      exact (Scanner.ofSymbols_take hs : (headerScanner x).run s (c :: cs) = _) ▸ ih t hstep
    | stop r t u =>
      rw [hs] at hstep
      exact (Scanner.ofSymbols_stop hs : (headerScanner x).run s (c :: cs) = _) ▸ hstep

end after

/-! ## A whole line -/

section line

variable {text later : Bytes} {eol : UInt8} (p : HeaderFields) (m : HttpRequest)

/-- A line that the version states take. -/
theorem readVersionLine (later : Bytes) {major minor tail : Bytes} (h : Tolerated major minor tail text)
    (heol : eol = cr ∨ eol = lf) : ∃ s : HeaderState,
      (headerScanner x).run ({ p with headersParseState := .httpVersionMajorStart }, m)
          (text ++ eol :: later) = (headerScanner x).run s later ∧
        AfterLine s.1.headersParseState ∧ s.2.versionMajor = readDigits major ∧
        ((∀ c ∈ tail, c = sp) → s.2.versionMinor = readDigits minor) := by
  have htext : text ++ eol :: later = major ++ (dot :: (minor ++ (tail ++ eol :: later))) := by
    rw [h.text_eq]
    simp
  have hmajor := readVersionMajor (x := x) p m h.major_digits.ne h.major_digits.digit
    (dot :: (minor ++ (tail ++ eol :: later)))
  let p₁ := ({ p with headersParseState := .httpVersionMajor }.recordRaw major).recordRaw [dot]
  let m₁ : HttpRequest := { m with versionMajor := readDigits major, firstLine := [] }
  have hdot := readDot (x := x) ({ p with headersParseState := .httpVersionMajor }.recordRaw major) m₁
    (minor ++ (tail ++ eol :: later))
  have hminor := readVersionMinor (x := x) p₁ m₁ h.minor_digits.ne h.minor_digits.digit
    (tail ++ eol :: later)
  obtain ⟨q, m₂, htail, hmaj, hmin⟩ := readVersionTail (x := x) (eol :: later) (p₁.recordRaw minor)
    { m₁ with versionMinor := readDigits minor, firstLine := [] } h.tail_bytes
  have hrun := ((hmajor.trans hdot).trans hminor).trans htail
  rw [htext]
  rcases heol with rfl | rfl
  · have hend : headerSwitch x ({ q with headersParseState := .httpVersionMinor }.recordRaw [cr], m₂) cr =
        .take ({ q.recordRaw [cr] with headersParseState := .expectingNewline }, m₂) := rfl
    exact ⟨_, hrun.trans (headerScanner_take hend), trivial, hmaj, hmin⟩
  · have hend : headerSwitch x ({ q with headersParseState := .httpVersionMinor }.recordRaw [lf], m₂) lf =
        .take ({ q.recordRaw [lf] with headersParseState := .expectingCr }, m₂) := rfl
    exact ⟨_, hrun.trans (headerScanner_take hend), trivial, hmaj, hmin⟩

theorem not_isDigit_of_eol (heol : eol = cr ∨ eol = lf) : isDigit eol = false := by
  rcases heol with rfl | rfl
  · rfl
  · rfl

/-- The first byte behind the digits of a text. -/
theorem behindDigits (later : Bytes) {rest : Bytes} (hrest : ∀ c v, rest = c :: v → isDigit c = false)
    (heol : eol = cr ∨ eol = lf) : ∃ c v, rest ++ eol :: later = c :: v ∧ isDigit c = false := by
  cases rest with
  | nil => exact ⟨eol, later, rfl, not_isDigit_of_eol heol⟩
  | cons c v => exact ⟨c, v ++ eol :: later, rfl, hrest c v rfl⟩

/-- Any other line is rejected. -/
theorem rejectsLine (h : ∀ major minor tail, ¬ Tolerated major minor tail text)
    (hline : ∀ c ∈ text, c ≠ cr ∧ c ≠ lf) (heol : eol = cr ∨ eol = lf) :
    RejectsVersion ((headerScanner x).run ({ p with headersParseState := .httpVersionMajorStart }, m)
      (text ++ eol :: later)) := by
  obtain ⟨major, rest, rfl, hmajor, hrest⟩ := splitDigits text
  rw [List.append_assoc]
  by_cases hne : major = []
  · -- no digit at all
    obtain ⟨c, v, hv, hc⟩ := behindDigits later hrest heol
    rw [hne, List.nil_append, hv]
    exact rejects_majorStart rfl hc v
  rw [readVersionMajor p m hne hmajor]
  by_cases hdot : ∃ v, rest = dot :: v
  · obtain ⟨v, rfl⟩ := hdot
    obtain ⟨minor, tail, rfl, hminor, htail⟩ := splitDigits v
    rw [List.cons_append]
    have hrun := readDot (x := x) ({ p with headersParseState := .httpVersionMajor }.recordRaw major)
      { m with versionMajor := readDigits major, firstLine := [] } (minor ++ tail ++ eol :: later)
    refine hrun ▸ ?_
    rw [List.append_assoc]
    by_cases hne' : minor = []
    · -- no digit behind the dot
      obtain ⟨c, v, hv, hc⟩ := behindDigits later htail heol
      rw [hne', List.nil_append, hv]
      exact rejects_minorStart rfl hc v
    -- the text behind the minor number holds a byte that is neither a blank nor a digit
    have hrun := readVersionMinor (x := x)
      (({ p with headersParseState := .httpVersionMajor }.recordRaw major).recordRaw [dot])
      { m with versionMajor := readDigits major, firstLine := [] } hne' hminor (tail ++ eol :: later)
    refine hrun ▸ ?_
    refine rejects_minor (eol :: later) _ rfl ?_ ?_
    · intro c hc
      exact hline c (by simp [hc])
    · intro hbytes
      refine h major minor tail ⟨⟨hne, hmajor⟩, ⟨hne', hminor⟩, ?_, hbytes, rfl⟩
      rintro c v rfl
      refine (hbytes c List.mem_cons_self).resolve_right ?_
      rw [htail c v rfl]
      exact Bool.false_ne_true
  · -- neither a dot nor a digit behind the major number
    obtain ⟨c, v, hv, hc⟩ := behindDigits later hrest heol
    rw [hv]
    refine rejects_major rfl ?_ hc v
    rintro rfl
    cases rest with
    | nil =>
      obtain ⟨rfl, _⟩ := List.cons.inj hv
      rcases heol with heol | heol
      · exact absurd heol (by decide)
      · exact absurd heol (by decide)
    | cons d w =>
      obtain ⟨rfl, _⟩ := List.cons.inj hv
      exact hdot ⟨w, rfl⟩

end line

/-! ## The stored version -/

/-- The parser has read the request line up to `HTTP/`, whatever stands in front of that. -/
structure ReadsToken (x : Externals) (g : Progress) (front : Bytes) : Prop where
  waits : (parseHeaders x { g with unread := front ++ str "HTTP/" }).2 = .indeterminate
  state : (parseHeaders x { g with unread := front ++ str "HTTP/" }).1.parser.headersParseState =
    .httpVersionMajorStart

/-- What `parse_headers` should make of a line with this text behind `HTTP/`. -/
structure StoresVersion (r : Progress × Tribool) (text : Bytes) : Prop where
  /-- A version is not complained about, and stored. -/
  stored : ∀ major minor, VersionText major minor text →
    ¬ (r.2 = .false ∧ r.1.ec = some .versionChar) ∧
      r.1.msg.versionMajor.toNat = decimalNumber major ∧ r.1.msg.versionMinor.toNat = decimalNumber minor
  /-- Any other text is an error. -/
  rejected : (∀ major minor, ¬ VersionText major minor text) →
    r.2 = .false ∧ r.1.ec = some .versionChar

theorem parseHeaders_rejects {g : Progress}
    (h : RejectsVersion ((headerScanner x).run (g.parser.toHeaderFields, g.msg) g.unread)) :
    (parseHeaders x g).2 = .false ∧ (parseHeaders x g).1.ec = some .versionChar := by
  obtain ⟨s, rest, h⟩ := h
  unfold parseHeaders
  dsimp only
  rw [h]
  exact ⟨rfl, rfl⟩

theorem parseHeaders_versioned {g : Progress} {major minor : UInt16}
    (h : EndsVersioned major minor ((headerScanner x).run (g.parser.toHeaderFields, g.msg) g.unread)) :
    ¬ ((parseHeaders x g).2 = .false ∧ (parseHeaders x g).1.ec = some .versionChar) ∧
      (parseHeaders x g).1.msg.versionMajor = major ∧ (parseHeaders x g).1.msg.versionMinor = minor := by
  unfold parseHeaders
  dsimp only
  rcases hrun : (headerScanner x).run (g.parser.toHeaderFields, g.msg) g.unread with s | ⟨r, s, rest⟩
  · rw [hrun] at h
    exact ⟨fun hf => (by cases hf.1), h.major, h.minor⟩
  · rw [hrun] at h
    cases r with
    | none => exact ⟨fun hf => (by cases hf.1), h.2.major, h.2.minor⟩
    | some e => exact ⟨fun hf => h.1 hf.2, h.2.major, h.2.minor⟩

theorem ReadsToken.run {g : Progress} {front : Bytes} (h : ReadsToken x g front) (rest : Bytes) :
    ∃ (p : HeaderFields) (m : HttpRequest),
      (headerScanner x).run (g.parser.toHeaderFields, g.msg) (front ++ (str "HTTP/" ++ rest)) =
        (headerScanner x).run ({ p with headersParseState := .httpVersionMajorStart }, m) rest := by
  obtain ⟨hwaits, hstate⟩ := h
  unfold parseHeaders at hwaits hstate
  dsimp only at hwaits hstate
  rw [← List.append_assoc,
    (headerScanner x).run_append (Scanner.ofSymbols_splits (headerStep x)) _ _ _ trivial]
  rcases hrun : (headerScanner x).run (g.parser.toHeaderFields, g.msg) (front ++ str "HTTP/") with
    ⟨p, m⟩ | ⟨r, s, rest⟩
  · rw [hrun] at hstate
    obtain ⟨st, code, msg, method, resource, query, raw, name, value, save⟩ := p
    obtain rfl : st = .httpVersionMajorStart := hstate
    exact ⟨⟨.httpVersionMajorStart, code, msg, method, resource, query, raw, name, value, save⟩, m, rfl⟩
  · rw [hrun] at hwaits
    cases r <;> cases hwaits

/--
**The version stored is the version sent**, and any other text is rejected, exactly for
the lines in which no digit stands behind a blank and both numbers fit into sixteen bits, and
for those that are no two numbers at all: these are rejected.
-/
theorem version_stored_iff {g : Progress} (front text later : Bytes) (eol : UInt8)
    (htoken : ReadsToken x g front) (htext : ∀ c ∈ text, c ≠ cr ∧ c ≠ lf) (heol : eol = cr ∨ eol = lf)
    (hunread : g.unread = front ++ (str "HTTP/" ++ (text ++ eol :: later))) :
    StoresVersion (parseHeaders x g) text ↔ VersionFits text := by
  obtain ⟨p, m, hrun⟩ := htoken.run (text ++ eol :: later)
  rw [← hunread] at hrun
  constructor
  · -- a line that is taken is one that should be
    intro hs major minor tail h
    obtain ⟨s, hline, hafter, hmaj, hmin⟩ := readVersionLine (x := x) p m later h heol
    have hends := headerScanner_versioned (x := x) later s ⟨hafter, rfl, rfl⟩
    rw [← hline, ← hrun] at hends
    obtain ⟨hok, hmajor, hminor⟩ := parseHeaders_versioned hends
    by_cases hv : ∃ a b, VersionText a b text
    · obtain ⟨a, b, hv⟩ := hv
      obtain ⟨k, ht⟩ := hv.tolerated
      obtain ⟨rfl, rfl, rfl⟩ := h.unique ht
      obtain ⟨_, ha, hb⟩ := hs.stored major minor hv
      refine ⟨fun c hc => List.eq_of_mem_replicate hc, ?_, ?_⟩
      · rw [← ha]
        exact UInt16.toNat_lt _
      · rw [← hb]
        exact UInt16.toNat_lt _
    · exact absurd (hs.rejected fun a b hab => hv ⟨a, b, hab⟩) hok
  · intro hfits
    refine ⟨?_, ?_⟩
    · intro major minor hv
      obtain ⟨k, h⟩ := hv.tolerated
      obtain ⟨hsp, ha, hb⟩ := hfits major minor _ h
      obtain ⟨s, hline, hafter, hmaj, hmin⟩ := readVersionLine (x := x) p m later h heol
      have hends := headerScanner_versioned (x := x) later s ⟨hafter, hmaj, hmin hsp⟩
      rw [← hline, ← hrun] at hends
      obtain ⟨hok, hmajor, hminor⟩ := parseHeaders_versioned hends
      exact ⟨hok, by rw [hmajor, readDigits_toNat ha], by rw [hminor, readDigits_toNat hb]⟩
    · intro hno
      refine parseHeaders_rejects ?_
      rw [hrun]
      refine rejectsLine p m (fun major minor tail h => ?_) htext heol
      exact hno major minor (h.versionText (hfits major minor tail h).1)

/-- A new parser that has these bytes in front of it. -/
def newProgress (buf : Bytes) : Progress :=
  { parser := HttpParser.fresh defaultContentMax 0 0, msg := .fresh, ec := none, unread := buf }

/-- Which bytes are in front of it does not matter here. -/
theorem readsToken_get (buf : Bytes) : ReadsToken plainExternals (newProgress buf) (str "GET / ") := by
  have h : ReadsToken plainExternals (newProgress []) (str "GET / ") :=
    ⟨by decide +kernel, by decide +kernel⟩
  exact ⟨h.waits, h.state⟩

theorem version_stored_one :
    StoresVersion (parseHeaders plainExternals (newProgress (str "GET / HTTP/1.1 \r\n"))) (str "1.1 ") := by
  refine (version_stored_iff (str "GET / ") (str "1.1 ") [lf] cr
    (readsToken_get _) (by decide) (.inl rfl) (by decide)).mpr ?_
  intro major minor tail h
  have hone : Tolerated (str "1") (str "1") [sp] (str "1.1 ") :=
    ⟨⟨by decide, by decide⟩, ⟨by decide, by decide⟩, by rintro c v ⟨⟩; rfl, by decide, by decide⟩
  obtain ⟨rfl, rfl, rfl⟩ := h.unique hone
  exact ⟨by decide, by decide, by decide⟩

/-- `HTTP/65537.1` is stored as 1.1, and `HTTP/1.1 1` as 1.11. -/
theorem version_not_stored :
    ¬ StoresVersion (parseHeaders plainExternals (newProgress (str "GET / HTTP/65537.1\r\n")))
        (str "65537.1") ∧
      ¬ StoresVersion (parseHeaders plainExternals (newProgress (str "GET / HTTP/1.1 1\r\n")))
        (str "1.1 1") := by
  constructor
  · intro h
    have hv : VersionText (str "65537") (str "1") (str "65537.1") :=
      ⟨⟨by decide, by decide⟩, ⟨by decide, by decide⟩, 0, by decide⟩
    exact absurd (h.stored _ _ hv).2.1 (by decide +kernel)
  · intro h
    refine absurd (h.rejected ?_).1 (by decide +kernel)
    intro major minor hv
    obtain ⟨k, ht⟩ := hv.tolerated
    have hmerged : Tolerated (str "1") (str "1") (str " 1") (str "1.1 1") :=
      ⟨⟨by decide, by decide⟩, ⟨by decide, by decide⟩, by rintro c v ⟨⟩; rfl, by decide, by decide⟩
    have hmem : (49 : UInt8) ∈ List.replicate k sp := by
      rw [(ht.unique hmerged).2.2]
      decide
    exact absurd (List.eq_of_mem_replicate hmem) (by decide)

end Pion.Proof
