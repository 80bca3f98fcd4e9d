import Pion.Proof.HeadLanguage

/-!
# The lines of a head

A line is a header, or nothing but blanks (`reads_line`), and what comes behind its end
depends on how it was ended. `reads_of_block` is the induction over the lines of a
block, `block_of_reads` the one over the bytes that the header loop has accepted.
-/

namespace Pion.Proof

open Pion Lib

variable {x : Externals}

/-! ## A header -/

theorem not_tokenByte_colon : ¬ TokenByte colon := by decide

theorem not_valueByte_eol {c : UInt8} (h : Eol c) : ¬ ValueByte c := by
  rcases h with rfl | rfl
  · decide
  · decide

theorem control_of_not_valueByte {c : UInt8} (h : ¬ ValueByte c) : c ≠ tab ∧ isControl c = true := by
  refine ⟨fun htab => h (.inl htab), ?_⟩
  by_contra hcontrol
  exact h (.inr (Bool.eq_false_iff.mpr hcontrol))

theorem TokenByte.not_eol {c : UInt8} (h : TokenByte c) : ¬ Eol c := by
  rintro (rfl | rfl)
  · exact ne_of_control h.not_control rfl rfl
  · exact ne_of_control h.not_control rfl rfl

theorem TokenByte.not_blank {c : UInt8} (h : TokenByte c) : ¬ Blank c := by
  rintro (rfl | rfl)
  · exact ne_of_control h.not_control rfl rfl
  · exact not_token_sp h

theorem not_blank_eol {c : UInt8} (h : Eol c) : ¬ Blank c := by
  rcases h with rfl | rfl
  · decide
  · decide

section line

variable {p : HeaderFields} (hp : p.saveRawHeaders = false) (m : HttpRequest) (cs : Bytes) (d : ReadHead)
  (rest : Bytes)

include hp

theorem collects_value : Collects (headerScanner x) none
    (fun w => ({ p with headerValue := w, headersParseState := .headerValue }, m)) ValueByte
    fun w => w.length ≤ headerValueMax := by
  have hstep : ∀ (w : Bytes) (c : UInt8), ValueByte c →
      headerSwitch x ({ p with headerValue := w, headersParseState := .headerValue }, m) c =
        if w.length ≥ headerValueMax then
          headerError ({ p with headerValue := w, headersParseState := .headerValue }, m) .headerValueSize
        else .take ({ p with headerValue := w ++ [c], headersParseState := .headerValue }, m) := by
    intro w c hc
    unfold headerSwitch
    dsimp only
    rw [if_neg (hc.ne_of_control rfl (by decide)), if_neg (hc.ne_of_control rfl (by decide)),
      if_neg fun h => hc.elim h.1 fun hctl => Bool.eq_false_iff.mp hctl h.2]
  refine .bounded (fun w c hc hw => ?_) (fun w c hc hw => ?_)
  · exact headerScanner_acts hp ((hstep w c hc).trans (if_neg (Nat.not_le.mpr hw)))
  · exact fails_of (p := { p with headerValue := w }) hp m ((hstep w c hc).trans (if_pos hw))

/-- A message with one more header. -/
def withHeader (x : Externals) (m : HttpRequest) (e : Bytes × Bytes) : HttpRequest :=
  { m with headers := x.insert m.headers e }

theorem closed_value : ClosedBy (headerScanner x) none
    (fun w => ({ p with headerValue := w, headersParseState := .headerValue }, m)) ValueByte Eol
    (fun w c => ({ p with headerValue := w, headersParseState := lineState c },
      withHeader x m (p.headerName, w))) := by
  refine ⟨fun c => not_valueByte_eol, fun w c hc => ⟨?_, fun heol => ?_⟩⟩
  · rintro (rfl | rfl)
    · exact headerScanner_acts hp rfl
    · exact headerScanner_acts hp rfl
  · have hcr : c ≠ cr := fun h => heol (.inl h)
    have hlf : c ≠ lf := fun h => heol (.inr h)
    refine fails_of (p := { p with headerValue := w }) hp m (e := .headerChar) ?_
    unfold headerSwitch
    dsimp only
    rw [if_neg hcr, if_neg hlf, if_pos (control_of_not_valueByte hc)]

/-- More of a value, up to the end of the line. -/
theorem reads_value (front buf : Bytes) (hfront : front.length ≤ headerValueMax) :
    Gives x ({ p with headerValue := front, headersParseState := .headerValue }, m) buf d rest ↔
      ∃ w c cs, buf = w ++ c :: cs ∧ (∀ b ∈ w, ValueByte b) ∧ (front ++ w).length ≤ headerValueMax ∧
        Eol c ∧ Gives x ({ p with headerValue := front ++ w, headersParseState := lineState c },
          withHeader x m (p.headerName, front ++ w)) cs d rest :=
  yields_closed (collects_value hp m) (closed_value hp m) d rest buf front hfront

/-- **Behind the colon.** -/
theorem reads_afterColon (buf : Bytes) :
    Gives x ({ p with headerValue := [], headersParseState := .spaceBeforeHeaderValue }, m) buf d rest ↔
      ∃ blank value c cs, buf = (if blank then [sp] else []) ++ (value ++ c :: cs) ∧
        Text ValueByte headerValueMax value ∧
        (blank = false → ∀ b ∈ value.head?, TokenByte b) ∧ Eol c ∧
        Gives x ({ p with headerValue := value, headersParseState := lineState c },
          withHeader x m (p.headerName, value)) cs d rest := by
  have hempty : ([] : Bytes).length ≤ headerValueMax := Nat.zero_le _
  have hone : ∀ c : UInt8, [c].length ≤ headerValueMax := fun _ => Nat.le_of_ble_eq_true rfl
  -- the end of the line right behind the colon
  have hnone : ∀ (c : UInt8) (cs : Bytes), Eol c →
      (Gives x ({ p with headerValue := [], headersParseState := .spaceBeforeHeaderValue }, m) (c :: cs)
        d rest ↔ Gives x ({ p with headerValue := [], headersParseState := lineState c },
          withHeader x m (p.headerName, [])) cs d rest) := by
    intro c cs heol
    refine reads_take (p := { p with headerValue := [] }) hp m cs d rest ?_
    rcases heol with rfl | rfl
    · rfl
    · rfl
  have hglue : ∀ (c : UInt8) (cs : Bytes), TokenByte c →
      (Gives x ({ p with headerValue := [], headersParseState := .spaceBeforeHeaderValue }, m) (c :: cs)
        d rest ↔ Gives x ({ p with headerValue := [c], headersParseState := .headerValue }, m) cs d
          rest) := by
    intro c cs hc
    refine reads_take (p := { p with headerValue := [] }) hp m cs d rest ?_
    unfold headerSwitch
    dsimp only
    rw [if_neg (hc.ne_of_special rfl), if_neg (ne_of_control hc.not_control rfl),
      if_neg (ne_of_control hc.not_control rfl), if_neg (Bool.eq_false_iff.mp hc)]
    rfl
  constructor
  · intro hy
    cases buf with
    | nil => exact absurd hy (not_yields_nil _ d rest)
    | cons b buf =>
      by_cases hsp : b = sp
      · subst hsp
        obtain ⟨w, c, cs, rfl, hbyte, hlen, heol, hnext⟩ := (reads_value hp m d rest [] buf hempty).mp
          ((reads_take (p := { p with headerValue := [] }) hp m buf d rest rfl).mp hy)
        exact ⟨true, w, c, cs, rfl, ⟨hbyte, hlen⟩, fun h => (by cases h), heol, hnext⟩
      by_cases heol : Eol b
      · exact ⟨false, [], b, buf, rfl, text_nil, fun _ _ h => (by cases h), heol, (hnone b buf heol).mp hy⟩
      by_cases htok : TokenByte b
      · obtain ⟨w, c, cs, rfl, hbyte, hlen, heol, hnext⟩ :=
          (reads_value hp m d rest [b] buf (hone b)).mp ((hglue b buf htok).mp hy)
        refine ⟨false, b :: w, c, cs, rfl, ⟨?_, hlen⟩, ?_, heol, hnext⟩
        · intro e he
          rcases List.mem_cons.mp he with rfl | he
          · exact htok.valueByte
          · exact hbyte e he
        · intro _ e he
          obtain rfl := Option.some.inj he
          exact htok
      · refine absurd hy (Fails.not_yields (fails_of (p := { p with headerValue := [] }) hp m
          (e := .headerChar) ?_) buf d rest)
        unfold headerSwitch
        dsimp only
        rw [if_neg hsp, if_neg fun h => heol (.inl h), if_neg fun h => heol (.inr h),
          if_pos (notToken_of htok)]
  · rintro ⟨blank, value, c, cs, rfl, ⟨hbyte, hlen⟩, hglued, heol, hy⟩
    cases blank with
    | true =>
      refine (reads_take (p := { p with headerValue := [] }) hp m _ d rest rfl).mpr ?_
      exact (reads_value hp m d rest [] _ hempty).mpr ⟨value, c, cs, rfl, hbyte, hlen, heol, hy⟩
    | false =>
      cases value with
      | nil => exact (hnone c cs heol).mpr hy
      | cons b w =>
        refine (hglue b _ (hglued rfl b rfl)).mpr ?_
        exact (reads_value hp m d rest [b] _ (hone b)).mpr
          ⟨w, c, cs, rfl, fun e he => hbyte e (List.mem_cons_of_mem b he), hlen, heol, hy⟩

theorem collects_name : Collects (headerScanner x) none
    (fun w => ({ p with headerName := w, headersParseState := .headerName }, m)) TokenByte
    fun w => w.length ≤ headerNameMax := by
  have hstep : ∀ (w : Bytes) (c : UInt8), TokenByte c →
      headerSwitch x ({ p with headerName := w, headersParseState := .headerName }, m) c =
        if w.length ≥ headerNameMax then
          headerError ({ p with headerName := w, headersParseState := .headerName }, m) .headerNameSize
        else .take ({ p with headerName := w ++ [c], headersParseState := .headerName }, m) := by
    intro w c hc
    unfold headerSwitch
    dsimp only
    rw [if_neg (hc.ne_of_special rfl), if_neg (Bool.eq_false_iff.mp hc)]
  refine .bounded (fun w c hc hw => ?_) (fun w c hc hw => ?_)
  · exact headerScanner_acts hp ((hstep w c hc).trans (if_neg (Nat.not_le.mpr hw)))
  · exact fails_of (p := { p with headerName := w }) hp m ((hstep w c hc).trans (if_pos hw))

/-- Nothing but a colon may stand behind a name. -/
theorem closed_name : ClosedBy (headerScanner x) none
    (fun w => ({ p with headerName := w, headersParseState := .headerName }, m)) TokenByte (· = colon)
    (fun w _ => ({ p with
      headerName := w, headerValue := [], headersParseState := .spaceBeforeHeaderValue }, m)) := by
  refine ⟨?_, fun w c hc => ⟨?_, fun hcolon => ?_⟩⟩
  · rintro c rfl
    exact not_tokenByte_colon
  · rintro rfl
    exact headerScanner_acts hp rfl
  · refine fails_of (p := { p with headerName := w }) hp m (e := .headerChar) ?_
    unfold headerSwitch
    dsimp only
    rw [if_neg hcolon, if_pos (notToken_of hc)]

/-- **A header, up to the end of its line.** -/
theorem reads_field {st : HeaderParseState} (hst : StartsLine st) {b : UInt8} (hb : TokenByte b)
    (buf : Bytes) :
    Gives x ({ p with headersParseState := st }, m) (b :: buf) d rest ↔
      ∃ (l : HeaderLine) (c : UInt8) (cs : Bytes), b :: buf = l.fieldText ++ c :: cs ∧ l.Readable ∧ Eol c ∧
        Gives x ({ p with
          headerName := l.name, headerValue := l.value, headersParseState := lineState c },
          withHeader x m l.entry) cs d rest := by
  have hfirst : ∀ c, TokenByte c → [c].length ≤ headerNameMax ∧
      (headerScanner x).Acts ({ p with headersParseState := st }, m) c
        (.take ({ p with headerName := [c], headersParseState := .headerName }, m)) := by
    intro c hc
    refine ⟨Nat.le_of_ble_eq_true rfl, ?_⟩
    have hraw : ({ p with headersParseState := st } : HeaderFields).recordRaw [c] =
        { p with headersParseState := st } := by
      unfold HeaderFields.recordRaw
      rw [show ({ p with headersParseState := st } : HeaderFields).saveRawHeaders = false from hp]
      rfl
    have hname := startsName (x := x) (p := { p with headersParseState := st }) m hst hc
    rw [hraw] at hname
    exact headerScanner_acts hp hname
  refine (yields_closed_first (collects_name hp m) (closed_name hp m) hfirst b buf d rest hb).trans ?_
  constructor
  · rintro ⟨name, _, cs, hbuf, hne, hbyte, hlen, rfl, hcolon⟩
    obtain ⟨blank, value, c, cs, rfl, hvalue, hglued, heol, hnext⟩ :=
      (reads_afterColon (p := { p with headerName := name }) hp m d rest _).mp hcolon
    refine ⟨⟨name, value, blank⟩, c, cs, ?_, ⟨⟨hne, hbyte, hlen, hvalue.byte, hvalue.length⟩, ?_⟩, heol,
      hnext⟩
    · rw [hbuf]
      unfold HeaderLine.fieldText
      simp only [List.append_assoc, List.cons_append]
    · intro hb e he
      exact hglued hb e he
  · rintro ⟨⟨name, value, blank⟩, c, cs, hbuf, hl, heol, hy⟩
    refine ⟨name, colon, (if blank then [sp] else []) ++ (value ++ c :: cs), ?_, hl.header.name_ne,
      hl.header.name_token, hl.header.name_length, rfl, ?_⟩
    · rw [hbuf]
      unfold HeaderLine.fieldText
      simp only [List.append_assoc, List.cons_append]
    · exact (reads_afterColon (p := { p with headerName := name }) hp m d rest _).mpr
        ⟨blank, value, c, cs, rfl, ⟨hl.header.value_byte, hl.header.value_length⟩, hl.glued, heol, hy⟩

/-! ## A line -/

theorem collects_blanks : Collects (headerScanner x) none
    (fun _ => ({ p with headersParseState := .headerWhitespace }, m)) Blank fun _ => True := by
  refine .free fun w c hc => headerScanner_acts hp ?_
  unfold headerSwitch
  dsimp only
  rcases hc with rfl | rfl
  · rfl
  · rfl

/-- No line begins with any other byte. -/
theorem fails_line {st : HeaderParseState} (hst : StartsLine st) {c : UInt8} (heol : ¬ Eol c)
    (hblank : ¬ Blank c) (htok : ¬ TokenByte c) :
    Fails (headerScanner x) none ({ p with headersParseState := st }, m) c := by
  have hcr : c ≠ cr := fun h => heol (.inl h)
  have hlf : c ≠ lf := fun h => heol (.inr h)
  have hspace : c ≠ tab ∧ c ≠ sp := ⟨fun h => hblank (.inl h), fun h => hblank (.inr h)⟩
  have hspace' : ¬ (c = tab ∨ c = sp) := hblank
  refine fails_of hp m (e := .headerChar) ?_
  unfold headerSwitch startHeaderName
  dsimp only
  rcases hst with rfl | rfl | rfl | rfl
  · dsimp only
    rw [if_neg hcr, if_neg hlf, if_neg hspace', if_pos (notToken_of htok)]
  · dsimp only
    rw [if_neg hcr, if_neg hlf, if_pos hspace, if_pos (notToken_of htok)]
  · dsimp only
    rw [if_neg hlf, if_neg hcr, if_neg hspace', if_pos (notToken_of htok)]
  · dsimp only
    rw [if_neg hcr, if_neg hlf, if_neg hspace', if_pos (notToken_of htok)]

/-- Behind blanks, the line may end. -/
theorem reads_blanksEnd {c : UInt8} (hc : Eol c) :
    Gives x ({ p with headersParseState := .headerWhitespace }, m) (c :: cs) d rest ↔
      Gives x ({ p with headersParseState := lineState c }, m) cs d rest := by
  refine reads_take hp m cs d rest ?_
  rcases hc with rfl | rfl
  · rfl
  · rfl

/-- **A line that is not empty**: blanks, or a header behind blanks. -/
theorem reads_line {st : HeaderParseState} (hst : StartsLine st) {b : UInt8} (hb : ¬ Eol b) (buf : Bytes) :
    Gives x ({ p with headersParseState := st }, m) (b :: buf) d rest ↔
      (∃ ws c cs, b :: buf = ws ++ c :: cs ∧ ws ≠ [] ∧ (∀ e ∈ ws, Blank e) ∧ Eol c ∧
        Gives x ({ p with headersParseState := lineState c }, m) cs d rest) ∨
      (∃ (ws : Bytes) (l : HeaderLine) (c : UInt8) (cs : Bytes), b :: buf = ws ++ (l.fieldText ++ c :: cs) ∧
        (∀ e ∈ ws, Blank e) ∧ l.Readable ∧ Eol c ∧
        Gives x ({ p with
          headerName := l.name, headerValue := l.value, headersParseState := lineState c },
          withHeader x m l.entry) cs d rest) := by
  have hfirst : ∀ c, Blank c → True ∧ (headerScanner x).Acts ({ p with headersParseState := st }, m) c
      (.take ({ p with headersParseState := .headerWhitespace }, m)) := by
    intro c hc
    refine ⟨trivial, headerScanner_acts hp ?_⟩
    rcases hst with rfl | rfl | rfl | rfl
    all_goals
      rcases hc with rfl | rfl
      · rfl
      · rfl
  constructor
  · intro hy
    by_cases hblank : Blank b
    · obtain ⟨ws, c, cs, hbuf, hne, hws, _, hc, hrest⟩ :=
        (yields_word_first (collects_blanks hp m) hfirst b buf d rest hblank).mp hy
      by_cases heol : Eol c
      · exact .inl ⟨ws, c, cs, hbuf, hne, hws, heol, (reads_blanksEnd hp m cs d rest heol).mp hrest⟩
      by_cases htok : TokenByte c
      · obtain ⟨l, c', cs', hfield, hl, heol', hnext⟩ :=
          (reads_field hp m d rest (.inr (.inl rfl)) htok cs).mp hrest
        exact .inr ⟨ws, l, c', cs', by rw [hbuf, hfield], hws, hl, heol', hnext⟩
      · exact absurd hrest ((fails_line hp m (.inr (.inl rfl)) heol hc htok).not_yields cs d rest)
    by_cases htok : TokenByte b
    · obtain ⟨l, c, cs, hfield, hl, heol, hnext⟩ := (reads_field hp m d rest hst htok buf).mp hy
      exact .inr ⟨[], l, c, cs, hfield, fun _ he => absurd he List.not_mem_nil, hl, heol, hnext⟩
    · exact absurd hy ((fails_line hp m hst hb hblank htok).not_yields buf d rest)
  · rintro (⟨ws, c, cs, hbuf, hne, hws, heol, hy⟩ | ⟨ws, l, c, cs, hbuf, hws, hl, heol, hy⟩)
    · obtain ⟨e, w, rfl⟩ := List.exists_cons_of_ne_nil hne
      obtain ⟨rfl, _⟩ := List.cons.inj hbuf
      exact (yields_word_first (collects_blanks hp m) hfirst b buf d rest (hws b List.mem_cons_self)).mpr
        ⟨b :: w, c, cs, hbuf, hne, hws, trivial, not_blank_eol heol,
          (reads_blanksEnd hp m cs d rest heol).mpr hy⟩
    · -- the first byte of the header
      obtain ⟨e, w, hname⟩ := List.exists_cons_of_ne_nil hl.header.name_ne
      have he : TokenByte e := hl.header.name_token e (by rw [hname]; exact List.mem_cons_self)
      obtain ⟨w', hfield⟩ : ∃ w', l.fieldText ++ c :: cs = e :: w' := by
        unfold HeaderLine.fieldText
        rw [show l.name = e :: w from hname]
        exact ⟨_, rfl⟩
      have hread : ∀ {st}, StartsLine st → Gives x ({ p with headersParseState := st }, m) (e :: w') d
          rest := fun hst => (reads_field hp m d rest hst he w').mpr ⟨l, c, cs, hfield.symm, hl, heol, hy⟩
      rw [hfield] at hbuf
      cases ws with
      | nil =>
        obtain ⟨rfl, rfl⟩ := List.cons.inj hbuf
        exact hread hst
      | cons b' ws =>
        obtain ⟨rfl, _⟩ := List.cons.inj hbuf
        exact (yields_word_first (collects_blanks hp m) hfirst b buf d rest (hws b List.mem_cons_self)).mpr
          ⟨b :: ws, e, w', hbuf, List.cons_ne_nil b ws, hws, trivial, he.not_blank, hread (.inr (.inl rfl))⟩

/-! ## The end of a line -/

/-- The first byte of the end of a line, and the second one if there is one. -/
theorem reads_lineEnd (e : LineEnd) (he : e = .crlf → m.versionMajor ≠ 0) : ∃ c w, e.text = c :: w ∧ Eol c ∧
    ∀ buf, Gives x ({ p with headersParseState := lineState c }, m) (w ++ buf) d rest ↔
      Gives x ({ p with headersParseState := e.state }, m) buf d rest := by
  cases e with
  | cr => exact ⟨cr, [], rfl, .inl rfl, fun _ => Iff.rfl⟩
  | lf => exact ⟨lf, [], rfl, .inr rfl, fun _ => Iff.rfl⟩
  | crlf => exact ⟨cr, [lf], rfl, .inl rfl, fun buf => reads_take hp m buf d rest (if_neg (he rfl))⟩
  | lfcr => exact ⟨lf, [cr], rfl, .inr rfl, fun buf => reads_take hp m buf d rest rfl⟩

/-- The empty line ends the head. -/
theorem reads_close {e : LineEnd} {final : Bytes} (h : Closes m.versionMajor e final rest) :
    Gives x ({ p with headersParseState := e.state }, m) (final ++ rest)
      ⟨p.method, p.resource, p.queryString, m⟩ rest := by
  cases h with
  | cr => exact (reads_stop hp m rest _ rest rfl).mpr ⟨rfl, rfl⟩
  | lf => exact (reads_stop hp m rest _ rest rfl).mpr ⟨rfl, rfl⟩
  | simple _ hv =>
    have hdone : headerSwitch x ({ p with headersParseState := .expectingNewline }, m) lf =
        .stop none ({ p with headersParseState := .expectingNewline }, m) true := if_pos hv
    exact (reads_stop hp m rest _ rest hdone).mpr ⟨rfl, rfl⟩
  | crlf _ he =>
    rw [LineEnd.state_eq_headerStart.mpr he]
    refine (reads_take hp m _ _ rest rfl).mpr ?_
    exact (reads_stop hp m rest _ rest rfl).mpr ⟨rfl, rfl⟩
  | lfcr _ he =>
    rw [LineEnd.state_eq_headerStart.mpr he]
    refine (reads_take hp m _ _ rest rfl).mpr ?_
    exact (reads_stop hp m rest _ rest rfl).mpr ⟨rfl, rfl⟩
  | @crOnly _ c cs he hc =>
    rw [LineEnd.state_eq_headerStart.mpr he]
    refine (reads_take hp m _ _ _ rfl).mpr ((reads_stop hp m cs _ _ rfl).mpr ⟨rfl, ?_⟩)
    exact if_neg (by simpa using hc)
  | @lfOnly _ c cs he hc =>
    rw [LineEnd.state_eq_headerStart.mpr he]
    refine (reads_take hp m _ _ _ rfl).mpr ((reads_stop hp m cs _ _ rfl).mpr ⟨rfl, ?_⟩)
    exact if_neg (by simpa using hc)

/-- A line end behind one of two bytes ends the head. -/
theorem closes_of_start {e : LineEnd} (he : e.state = .headerStart) {b : UInt8} (hb : Eol b)
    (hy : Gives x ({ p with headersParseState := .headerStart }, m) (b :: cs) d rest) :
    ∃ final, b :: cs = final ++ rest ∧ Closes m.versionMajor e final rest ∧
      d = ⟨p.method, p.resource, p.queryString, m⟩ := by
  have he' := LineEnd.state_eq_headerStart.mp he
  rcases hb with rfl | rfl
  · have hfinal := (reads_take hp m cs d rest rfl).mp hy
    cases cs with
    | nil => exact absurd hfinal (not_yields_nil _ d rest)
    | cons c cs =>
      obtain ⟨hd, hrest⟩ := (reads_stop hp m cs d rest rfl).mp hfinal
      by_cases hc : c = lf
      · subst hc
        obtain rfl : cs = rest := hrest
        exact ⟨[cr, lf], rfl, .crlf cs he', hd.symm⟩
      · obtain rfl : c :: cs = rest := (if_neg (by simpa using hc)).symm.trans hrest
        exact ⟨[cr], rfl, .crOnly cs he' hc, hd.symm⟩
  · have hfinal := (reads_take hp m cs d rest rfl).mp hy
    cases cs with
    | nil => exact absurd hfinal (not_yields_nil _ d rest)
    | cons c cs =>
      obtain ⟨hd, hrest⟩ := (reads_stop hp m cs d rest rfl).mp hfinal
      by_cases hc : c = cr
      · subst hc
        obtain rfl : cs = rest := hrest
        exact ⟨[lf, cr], rfl, .lfcr cs he', hd.symm⟩
      · obtain rfl : c :: cs = rest := (if_neg (by simpa using hc)).symm.trans hrest
        exact ⟨[lf], rfl, .lfOnly cs he' hc, hd.symm⟩

/-- The second byte of a line end is part of it, or it ends the head. -/
theorem reads_secondEol {c b : UInt8} (hc : Eol c) (hb : Eol b)
    (hy : Gives x ({ p with headersParseState := lineState c }, m) (b :: cs) d rest) :
    (∃ e final, e.text = [c] ∧ e ≠ .crlf ∧ b :: cs = final ++ rest ∧ Closes m.versionMajor e final rest ∧
      d = ⟨p.method, p.resource, p.queryString, m⟩) ∨
    (∃ e : LineEnd, e.text = [c, b] ∧ (e = .crlf → m.versionMajor ≠ 0) ∧ e.state = .headerStart ∧
      Gives x ({ p with headersParseState := .headerStart }, m) cs d rest) := by
  rcases hc with rfl | rfl
  · rcases hb with rfl | rfl
    · obtain ⟨hd, hrest⟩ := (reads_stop hp m cs d rest rfl).mp hy
      obtain rfl : cs = rest := hrest
      exact .inl ⟨.cr, [cr], rfl, fun h => (by cases h), rfl, .cr cs, hd.symm⟩
    · by_cases hv : m.versionMajor = 0
      · have hdone : headerSwitch x ({ p with headersParseState := .expectingNewline }, m) lf =
            .stop none ({ p with headersParseState := .expectingNewline }, m) true := if_pos hv
        obtain ⟨hd, hrest⟩ := (reads_stop hp m cs d rest hdone).mp hy
        obtain rfl : cs = rest := hrest
        exact .inl ⟨.cr, [lf], rfl, fun h => (by cases h), rfl, .simple cs hv, hd.symm⟩
      · have htake : headerSwitch x ({ p with headersParseState := .expectingNewline }, m) lf =
            .take ({ p with headersParseState := .headerStart }, m) := if_neg hv
        exact .inr ⟨.crlf, rfl, fun _ => hv, rfl, (reads_take hp m cs d rest htake).mp hy⟩
  · rcases hb with rfl | rfl
    · exact .inr ⟨.lfcr, rfl, fun h => (by cases h), rfl, (reads_take hp m cs d rest rfl).mp hy⟩
    · obtain ⟨hd, hrest⟩ := (reads_stop hp m cs d rest rfl).mp hy
      obtain rfl : cs = rest := hrest
      exact .inl ⟨.lf, [lf], rfl, fun h => (by cases h), rfl, .lf cs, hd.symm⟩

end line

/-! ## Blocks -/

/-- What is read out of a block behind this state. -/
def behindBlock (x : Externals) (p : HeaderFields) (m : HttpRequest) (ls : List HeaderLine) : ReadHead :=
  ⟨p.method, p.resource, p.queryString, { m with headers := addHeaders x m.headers ls }⟩

/-- **Every block is accepted**, and its headers are added one by one. -/
theorem reads_of_block {version : UInt16} {rest : Bytes} {e : LineEnd} {ls : List HeaderLine} {block : Bytes}
    (h : HeaderBlock version rest e ls block) : ∀ {p : HeaderFields} (_ : p.saveRawHeaders = false)
      (m : HttpRequest), m.versionMajor = version →
      Gives x ({ p with headersParseState := e.state }, m) block (behindBlock x p m ls) rest := by
  induction h with
  | close hclose =>
    intro p hp m hm
    subst hm
    exact reads_close hp m rest hclose
  | @blanks e e' ws buf ls hne hws he _ ih =>
    intro p hp m hm
    subst hm
    obtain ⟨c, w, htext, heol, hread⟩ := reads_lineEnd (x := x) hp m (behindBlock x p m ls) rest e' he
    obtain ⟨b, ws, rfl⟩ := List.exists_cons_of_ne_nil hne
    have hb : Blank b := hws b List.mem_cons_self
    refine (reads_line hp m _ rest e.startsLine (fun heol => not_blank_eol heol hb) _).mpr (.inl ?_)
    refine ⟨b :: ws, c, w ++ buf, ?_, hne, hws, heol, (hread buf).mpr (ih hp m rfl)⟩
    rw [htext]
    rfl
  | @header e e' ws buf l ls hws hl he _ ih =>
    intro p hp m hm
    subst hm
    obtain ⟨c, w, htext, heol, hread⟩ := reads_lineEnd (x := x)
      (p := { p with headerName := l.name, headerValue := l.value }) hp (withHeader x m l.entry)
      (behindBlock x p m (l :: ls)) rest e' he
    obtain ⟨b, v, hline, hb⟩ : ∃ b v, ws ++ (l.fieldText ++ (e'.text ++ buf)) = b :: v ∧ ¬ Eol b := by
      cases ws with
      | nil =>
        obtain ⟨b, v, hname⟩ := List.exists_cons_of_ne_nil hl.header.name_ne
        refine ⟨b, v ++ (colon :: ((if l.blank then [sp] else []) ++ l.value) ++ (e'.text ++ buf)), ?_,
          (hl.header.name_token b (by rw [hname]; exact List.mem_cons_self)).not_eol⟩
        unfold HeaderLine.fieldText
        rw [show l.name = b :: v from hname]
        simp only [List.nil_append, List.cons_append, List.append_assoc]
      | cons b ws =>
        exact ⟨b, _, rfl, fun heol => not_blank_eol heol (hws b List.mem_cons_self)⟩
    rw [hline]
    refine (reads_line hp m _ rest e.startsLine hb v).mpr (.inr ?_)
    refine ⟨ws, l, c, w ++ buf, ?_, hws, hl, heol, (hread buf).mpr ?_⟩
    · rw [← hline, htext]
      rfl
    · exact ih (p := { p with headerName := l.name, headerValue := l.value }) hp (withHeader x m l.entry) rfl

/-- **Nothing else is accepted.** By induction on what is left of the buffer. -/
theorem block_of_reads {rest : Bytes} {d : ReadHead} : ∀ (n : Nat) (cs : Bytes), cs.length ≤ n →
    ∀ {p : HeaderFields} (_ : p.saveRawHeaders = false) (m : HttpRequest) (c : UInt8), Eol c →
      Gives x ({ p with headersParseState := lineState c }, m) cs d rest →
      ∃ e ls block, c :: cs = e.text ++ block ∧ (e = .crlf → m.versionMajor ≠ 0) ∧
        HeaderBlock m.versionMajor rest e ls block ∧ d = behindBlock x p m ls := by
  intro n
  induction n with
  | zero =>
    intro cs hcs p hp m c _ hy
    rw [List.length_eq_zero_iff.mp (Nat.le_zero.mp hcs)] at hy
    exact absurd hy (not_yields_nil _ d rest)
  | succ n ih =>
    intro cs hcs p hp m c hc hy
    -- a line that is not empty, behind any end of the line before
    have hline : ∀ (e : LineEnd) {st : HeaderParseState} (b : UInt8) (buf : Bytes), StartsLine st → ¬ Eol b →
        (b :: buf).length ≤ n + 1 → Gives x ({ p with headersParseState := st }, m) (b :: buf) d rest →
        ∃ ls, HeaderBlock m.versionMajor rest e ls (b :: buf) ∧ d = behindBlock x p m ls := by
      intro e st b buf hst hb hlen hy
      rcases (reads_line hp m d rest hst hb buf).mp hy with
        ⟨ws, c, cs, hbuf, hne, hws, heol, hnext⟩ | ⟨ws, l, c, cs, hbuf, hws, hl, heol, hnext⟩
      · have hpos := List.length_pos_of_ne_nil hne
        have hshort : cs.length ≤ n := by
          rw [hbuf, List.length_append, List.length_cons] at hlen
          omega
        obtain ⟨e', ls, block, htext, he', hblock, rfl⟩ := ih cs hshort hp m c heol hnext
        rw [hbuf, htext]
        exact ⟨ls, .blanks hne hws he' hblock, rfl⟩
      · have hpos : 0 < l.fieldText.length := by
          unfold HeaderLine.fieldText
          rw [List.length_append, List.length_cons]
          omega
        have hshort : cs.length ≤ n := by
          rw [hbuf, List.length_append, List.length_append, List.length_cons] at hlen
          omega
        obtain ⟨e', ls, block, htext, he', hblock, rfl⟩ := ih cs hshort
          (p := { p with headerName := l.name, headerValue := l.value }) hp (withHeader x m l.entry) c heol
          hnext
        rw [hbuf, htext]
        exact ⟨l :: ls, .header hws hl he' hblock, rfl⟩
    cases cs with
    | nil => exact absurd hy (not_yields_nil _ d rest)
    | cons b buf =>
      have hshort : buf.length ≤ n := Nat.le_of_succ_le_succ hcs
      by_cases hb : Eol b
      · rcases reads_secondEol hp m buf d rest hc hb hy with
          ⟨e, final, htext, he, hfinal, hclose, rfl⟩ | ⟨e, htext, he, hstate, hnext⟩
        · rw [hfinal]
          exact ⟨e, [], _, by rw [htext]; rfl, fun h => absurd h he, .close hclose, rfl⟩
        cases buf with
        | nil => exact absurd hnext (not_yields_nil _ d rest)
        | cons b' buf =>
          by_cases hb' : Eol b'
          · obtain ⟨final, hfinal, hclose, rfl⟩ := closes_of_start hp m buf d rest hstate hb' hnext
            rw [hfinal]
            exact ⟨e, [], _, by rw [htext]; rfl, he, .close hclose, rfl⟩
          · obtain ⟨ls, hblock, hd⟩ := hline e b' buf (.inl rfl) hb' (Nat.le_succ_of_le hshort) hnext
            exact ⟨e, ls, _, by rw [htext]; rfl, he, hblock, hd⟩
      -- the line was ended by one byte
      · obtain ⟨e, htext, he, hst⟩ : ∃ e : LineEnd, e.text = [c] ∧ e ≠ .crlf ∧ StartsLine (lineState c) := by
          rcases hc with rfl | rfl
          · exact ⟨.cr, rfl, fun h => (by cases h), .inr (.inr (.inl rfl))⟩
          · exact ⟨.lf, rfl, fun h => (by cases h), .inr (.inr (.inr rfl))⟩
        obtain ⟨ls, hblock, hd⟩ := hline e b buf hst hb hcs hy
        exact ⟨e, ls, b :: buf, by rw [htext]; rfl, fun h => absurd h he, hblock, hd⟩

end Pion.Proof
