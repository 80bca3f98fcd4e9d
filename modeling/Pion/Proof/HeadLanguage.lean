import Pion.Proof.HeadGrammar
import Pion.Proof.ValueSpace

/-!
# What the header loop accepts

The header loop recognises the grammar of heads, no more and no less, and reads off
what is written in them.

Its states are taken one by one, each with the equation of the language that it accepts:
a word of bytes of one kind, then one of the bytes that end it. Here is the request
line, up to `reads_target`; the lines behind it are in `HeadBlocks`.
-/

namespace Pion.Proof

open Pion Lib

variable {x : Externals}

/-- What the header loop has read: the texts of the request line, and the message. -/
structure ReadHead where
  method : Bytes
  resource : Bytes
  queryString : Bytes
  msg : HttpRequest
  deriving DecidableEq

def readHead (s : HeaderState) : ReadHead := ⟨s.1.method, s.1.resource, s.1.queryString, s.2⟩

/-- From `s`, the header loop accepts a front of `buf`, reads `d` out of it and leaves `rest`. -/
abbrev Gives (x : Externals) (s : HeaderState) (buf : Bytes) (d : ReadHead) (rest : Bytes) : Prop :=
  Yields (headerScanner x) none readHead s buf d rest

/-! ## Without raw headers -/

/-- States that differ in their raw headers only. -/
def SameButRaw (s t : HeaderState) : Prop :=
  t = ({ s.1 with rawHeaders := t.1.rawHeaders, saveRawHeaders := t.1.saveRawHeaders }, s.2)

theorem headerStep_sameButRaw {s t : HeaderState} (h : SameButRaw s t) (c : UInt8) :
    (headerStep x s c).Alike SameButRaw (headerStep x t c) := by
  obtain ⟨⟨st, code, msg, method, resource, query, raw, name, value, save⟩, m⟩ := s
  obtain ⟨raw', save', rfl⟩ : ∃ r b,
      t = (⟨st, code, msg, method, resource, query, r, name, value, b⟩, m) := ⟨_, _, h⟩
  unfold headerStep headerSwitch
  dsimp only [headerError, headerGoto, headerDone, setVersionZero, addHeader, startHeaderName,
    expectVersionByte, HeaderFields.recordRaw]
  cases st
  all_goals
    repeat' apply of_ite₂
    all_goals
      first
      | exact .take rfl
      | exact .stop _ _ rfl

theorem reads_sameButRaw {s t : HeaderState} (h : SameButRaw s t) (buf : Bytes) (d : ReadHead)
    (rest : Bytes) : Gives x s buf d rest ↔ Gives x t buf d rest := by
  refine yields_alike (R := SameButRaw)
    (fun s t c cs h => (headerStep_sameButRaw h c).onBuffer c cs) ?_ ?_ h buf d rest
  · intro s t h
    rw [h]
    rfl
  · intro s t h
    rw [h]
    rfl

/-- The step of the header loop, when it does not record anything. -/
theorem headerScanner_acts {s : HeaderState} (hs : s.1.saveRawHeaders = false) {c : UInt8}
    {a : HeaderAction} (h : headerSwitch x s c = a) : (headerScanner x).Acts s c a := by
  obtain ⟨⟨st, code, msg, method, resource, query, raw, name, value, save⟩, m⟩ := s
  obtain rfl : save = false := hs
  subst h
  exact fun _ => rfl

/-! ## The request line -/

/-- A byte that ends a line. -/
def Eol (c : UInt8) : Prop := c = cr ∨ c = lf

instance (c : UInt8) : Decidable (Eol c) := inferInstanceAs (Decidable (_ ∨ _))

theorem notToken_of {c : UInt8} (h : ¬ TokenByte c) : notToken c = true := by
  simpa [TokenByte] using h

theorem not_token_sp : ¬ TokenByte sp := by decide

theorem TokenByte.not_leading {c : UInt8} (h : TokenByte c) : ¬ LeadingByte c := by
  rintro (rfl | rfl | rfl)
  · exact not_token_sp h
  · exact ne_of_control h.not_control rfl rfl
  · exact ne_of_control h.not_control rfl rfl

theorem not_queryByte_eol {c : UInt8} (h : Eol c) : ¬ QueryByte c := by
  rcases h with rfl | rfl
  · decide
  · decide

/-- The first byte behind a resource or a query. -/
theorem versionPart_first {v : Option VersionWord} {c c' : UInt8} {cs cs' : Bytes} (hc : Eol c)
    (h : versionPart v ++ c :: cs = c' :: cs') : ¬ QueryByte c' ∧ c' ≠ question := by
  cases v with
  | none =>
    obtain ⟨rfl, _⟩ := List.cons.inj h
    refine ⟨not_queryByte_eol hc, ?_⟩
    rcases hc with rfl | rfl
    · decide
    · decide
  | some v =>
    obtain ⟨rfl, _⟩ := List.cons.inj h
    exact ⟨by decide, by decide⟩

section line

variable {p : HeaderFields} (hp : p.saveRawHeaders = false) (m : HttpRequest) (cs : Bytes) (d : ReadHead)
  (rest : Bytes)

include hp

/-- A state from which the byte leads on. -/
theorem reads_take {st : HeaderParseState} {c : UInt8} {s' : HeaderState}
    (h : headerSwitch x ({ p with headersParseState := st }, m) c = .take s') :
    Gives x ({ p with headersParseState := st }, m) (c :: cs) d rest ↔ Gives x s' cs d rest :=
  yields_take (headerScanner_acts hp h) cs d rest

/-- A state that stops at the byte. -/
theorem reads_stop {st : HeaderParseState} {c : UInt8} {s' : HeaderState} {used : Bool}
    (h : headerSwitch x ({ p with headersParseState := st }, m) c = .stop none s' used) :
    Gives x ({ p with headersParseState := st }, m) (c :: cs) d rest ↔
      readHead s' = d ∧ (if used then cs else c :: cs) = rest :=
  yields_stop (headerScanner_acts hp h) cs d rest

/-- A state that refuses the byte. -/
theorem fails_of {st : HeaderParseState} {c : UInt8} {e : ErrorValue}
    (h : headerSwitch x ({ p with headersParseState := st }, m) c =
      headerError ({ p with headersParseState := st }, m) e) :
    Fails (headerScanner x) none ({ p with headersParseState := st }, m) c :=
  ⟨some e, _, false, headerScanner_acts hp h, fun hn => by cases hn⟩

/-! ### The method -/

theorem collects_leading : Collects (headerScanner x) none
    (fun _ => ({ p with headersParseState := .methodStart }, m)) LeadingByte fun _ => True := by
  refine .free fun w c hc => headerScanner_acts hp ?_
  unfold headerSwitch
  dsimp only
  exact if_neg fun h => hc.elim h.1 fun hc => hc.elim h.2.1 h.2.2

theorem collects_method : Collects (headerScanner x) none
    (fun w => ({ p with method := w, headersParseState := .method }, m)) TokenByte
    fun w => w.length ≤ methodMax := by
  refine .bounded (fun w c hc hw => ?_) (fun w c hc hw => ?_)
  · refine headerScanner_acts hp ?_
    unfold headerSwitch
    dsimp only
    rw [if_neg (hc.ne_of_special rfl), if_neg (Bool.eq_false_iff.mp hc), if_neg (Nat.not_le.mpr hw)]
  · refine fails_of (p := { p with method := w }) hp m (e := .methodSize) ?_
    unfold headerSwitch
    dsimp only
    rw [if_neg (hc.ne_of_special rfl), if_neg (Bool.eq_false_iff.mp hc), if_pos hw]

theorem closed_method : ClosedBy (headerScanner x) none
    (fun w => ({ p with method := w, headersParseState := .method }, m)) TokenByte (· = sp)
    (fun w _ => ({ p with method := w, resource := [], headersParseState := .uriStem }, m)) := by
  refine ⟨?_, fun w c hc => ⟨?_, fun hsp => ?_⟩⟩
  · rintro c rfl
    exact not_token_sp
  · rintro rfl
    exact headerScanner_acts hp rfl
  · refine fails_of (p := { p with method := w }) hp m (e := .methodChar) ?_
    unfold headerSwitch
    dsimp only
    rw [if_neg hsp, if_pos (notToken_of hc)]

theorem methodFirst (c : UInt8) (hc : TokenByte c) : [c].length ≤ methodMax ∧
    (headerScanner x).Acts ({ p with headersParseState := .methodStart }, m) c
      (.take ({ p with method := [c], headersParseState := .method }, m)) := by
  refine ⟨Nat.le_of_ble_eq_true rfl, headerScanner_acts hp ?_⟩
  unfold headerSwitch
  dsimp only
  rw [if_pos ⟨hc.ne_of_special rfl, ne_of_control hc.not_control rfl, ne_of_control hc.not_control rfl⟩,
    if_neg (Bool.eq_false_iff.mp hc)]

/-- **Up to the method.** -/
theorem reads_method (buf : Bytes) :
    Gives x ({ p with headersParseState := .methodStart }, m) buf d rest ↔
      ∃ lead method cs, buf = lead ++ (method ++ sp :: cs) ∧ (∀ c ∈ lead, LeadingByte c) ∧
        method ≠ [] ∧ Text TokenByte methodMax method ∧
        Gives x ({ p with method := method, resource := [], headersParseState := .uriStem }, m)
          cs d rest := by
  refine (yields_word (collects_leading hp m) d rest buf [] trivial).trans ?_
  constructor
  · rintro ⟨lead, c, cs, rfl, hlead, _, hc, hy⟩
    have hspace : c ≠ sp ∧ c ≠ cr ∧ c ≠ lf := by simpa [LeadingByte] using hc
    by_cases htok : TokenByte c
    · obtain ⟨method, _, cs', hbuf, hne, hbyte, hlen, rfl, hnext⟩ := (yields_closed_first
        (collects_method hp m) (closed_method hp m) (methodFirst hp m) c cs d rest htok).mp hy
      exact ⟨lead, method, cs', by rw [hbuf], hlead, hne, ⟨hbyte, hlen⟩, hnext⟩
    · refine absurd hy (Fails.not_yields (fails_of hp m (e := .methodChar) ?_) cs d rest)
      unfold headerSwitch
      dsimp only
      rw [if_pos hspace, if_pos (notToken_of htok)]
  · rintro ⟨lead, method, cs, rfl, hlead, hne, hmethod, hy⟩
    obtain ⟨c, w, rfl⟩ := List.exists_cons_of_ne_nil hne
    have hc : TokenByte c := hmethod.byte c List.mem_cons_self
    refine ⟨lead, c, w ++ sp :: cs, rfl, hlead, trivial, hc.not_leading, ?_⟩
    exact (yields_closed_first (collects_method hp m) (closed_method hp m) (methodFirst hp m) c _ d rest
      hc).mpr ⟨c :: w, sp, cs, rfl, hne, hmethod.byte, hmethod.length, rfl, hy⟩

/-! ### The resource -/

theorem collects_resource : Collects (headerScanner x) none
    (fun w => ({ p with resource := w, headersParseState := .uriStem }, m)) ResourceByte
    fun w => w.length ≤ resourceMax := by
  have hstep : ∀ (w : Bytes) (c : UInt8), ResourceByte c →
      headerSwitch x ({ p with resource := w, headersParseState := .uriStem }, m) c =
        if w.length ≥ resourceMax then
          headerError ({ p with resource := w, headersParseState := .uriStem }, m) .uriSize
        else .take ({ p with resource := w ++ [c], headersParseState := .uriStem }, m) := by
    rintro w c ⟨⟨hcontrol, hsp⟩, hquestion⟩
    unfold headerSwitch
    dsimp only
    rw [if_neg hsp, if_neg hquestion, if_neg (ne_of_control hcontrol rfl),
      if_neg (ne_of_control hcontrol rfl), if_neg (Bool.eq_false_iff.mp hcontrol)]
  refine .bounded (fun w c hc hw => ?_) (fun w c hc hw => ?_)
  · exact headerScanner_acts hp ((hstep w c hc).trans (if_neg (Nat.not_le.mpr hw)))
  · exact fails_of (p := { p with resource := w }) hp m ((hstep w c hc).trans (if_pos hw))

theorem collects_query : Collects (headerScanner x) none
    (fun w => ({ p with queryString := w, headersParseState := .uriQuery }, m)) QueryByte
    fun w => w.length ≤ queryStringMax := by
  have hstep : ∀ (w : Bytes) (c : UInt8), QueryByte c →
      headerSwitch x ({ p with queryString := w, headersParseState := .uriQuery }, m) c =
        if w.length ≥ queryStringMax then
          headerError ({ p with queryString := w, headersParseState := .uriQuery }, m) .querySize
        else .take ({ p with queryString := w ++ [c], headersParseState := .uriQuery }, m) := by
    rintro w c ⟨hcontrol, hsp⟩
    unfold headerSwitch
    dsimp only
    rw [if_neg hsp, if_neg (ne_of_control hcontrol rfl), if_neg (ne_of_control hcontrol rfl),
      if_neg (Bool.eq_false_iff.mp hcontrol)]
  refine .bounded (fun w c hc hw => ?_) (fun w c hc hw => ?_)
  · exact headerScanner_acts hp ((hstep w c hc).trans (if_neg (Nat.not_le.mpr hw)))
  · exact fails_of (p := { p with queryString := w }) hp m ((hstep w c hc).trans (if_pos hw))

/-- A message with this version. -/
def withNumbers (m : HttpRequest) (v : UInt16 × UInt16) : HttpRequest :=
  { m with versionMajor := v.1, versionMinor := v.2, firstLine := [] }

/-- What may stand behind a resource or a query, but for the question mark. -/
theorem reads_targetEnd {st : HeaderParseState} (hst : st = .uriStem ∨ st = .uriQuery) {c : UInt8}
    (hquestion : st = .uriStem → c ≠ question) (hc : ¬ QueryByte c) :
    Gives x ({ p with headersParseState := st }, m) (c :: cs) d rest ↔
      (c = sp ∧ Gives x ({ p with headersParseState := .httpVersionH }, m) cs d rest) ∨
      (Eol c ∧ Gives x ({ p with headersParseState := lineState c }, withNumbers m (0, 0)) cs d rest) := by
  by_cases hsp : c = sp
  · subst hsp
    have htake : headerSwitch x ({ p with headersParseState := st }, m) sp =
        .take ({ p with headersParseState := .httpVersionH }, m) := by
      rcases hst with rfl | rfl
      · rfl
      · rfl
    refine (reads_take hp m cs d rest htake).trans ⟨fun h => .inl ⟨rfl, h⟩, ?_⟩
    rintro (h | h)
    · exact h.2
    · exact absurd h.1 (by decide)
  by_cases heol : Eol c
  · have htake : headerSwitch x ({ p with headersParseState := st }, m) c =
        .take ({ p with headersParseState := lineState c }, withNumbers m (0, 0)) := by
      rcases hst with rfl | rfl
      · rcases heol with rfl | rfl
        · rfl
        · rfl
      · rcases heol with rfl | rfl
        · rfl
        · rfl
    refine (reads_take hp m cs d rest htake).trans ⟨fun h => .inr ⟨heol, h⟩, ?_⟩
    rintro (h | h)
    · exact absurd h.1 hsp
    · exact h.2
  have hcontrol : isControl c = true := by
    by_contra hcontrol
    exact hc ⟨Bool.eq_false_iff.mpr hcontrol, hsp⟩
  have hfails : Fails (headerScanner x) none ({ p with headersParseState := st }, m) c := by
    rcases hst with rfl | rfl
    · refine fails_of hp m (e := .uriChar) ?_
      unfold headerSwitch
      dsimp only
      rw [if_neg hsp, if_neg (hquestion rfl), if_neg fun h => heol (.inl h),
        if_neg fun h => heol (.inr h), if_pos hcontrol]
    · refine fails_of hp m (e := .queryChar) ?_
      unfold headerSwitch
      dsimp only
      rw [if_neg hsp, if_neg fun h => heol (.inl h), if_neg fun h => heol (.inr h), if_pos hcontrol]
  refine ⟨fun h => absurd h (hfails.not_yields cs d rest), ?_⟩
  rintro (h | h)
  · exact absurd h.1 hsp
  · exact absurd h.1 heol

theorem reads_question :
    Gives x ({ p with headersParseState := .uriStem }, m) (question :: cs) d rest ↔
      Gives x ({ p with queryString := [], headersParseState := .uriQuery }, m) cs d rest :=
  reads_take hp m cs d rest rfl

/-! ### The version -/

/-- A state that waits for one letter. -/
theorem reads_letter {st st' : HeaderParseState} {letter : UInt8}
    (h : ∀ c, headerSwitch x ({ p with headersParseState := st }, m) c =
      expectVersionByte ({ p with headersParseState := st }, m) c letter st') (buf : Bytes) :
    Gives x ({ p with headersParseState := st }, m) buf d rest ↔
      ∃ cs, buf = letter :: cs ∧ Gives x ({ p with headersParseState := st' }, m) cs d rest :=
  yields_symbol (headerScanner_acts hp ((h letter).trans (if_neg fun hn => hn rfl)))
    (fun c hc => fails_of hp m ((h c).trans (if_pos hc))) buf d rest

theorem collects_major : Collects (headerScanner x) none
    (fun w => ({ p with headersParseState := .httpVersionMajor },
      { m with versionMajor := readDigits w, firstLine := [] }))
    (fun c => isDigit c = true) fun _ => True := by
  refine .free fun w c hc => headerScanner_acts hp ?_
  unfold headerSwitch
  dsimp only
  rw [if_neg (isDigit.ne hc rfl), if_pos hc, ← readDigits_append]

/-- Nothing but a dot may stand behind the digits. -/
theorem closed_major : ClosedBy (headerScanner x) none
    (fun w => ({ p with headersParseState := .httpVersionMajor },
      { m with versionMajor := readDigits w, firstLine := [] }))
    (fun c => isDigit c = true) (· = dot)
    (fun w _ => ({ p with headersParseState := .httpVersionMinorStart },
      { m with versionMajor := readDigits w, firstLine := [] })) := by
  refine ⟨?_, fun w c hc => ⟨?_, fun hdot => ?_⟩⟩
  · rintro c rfl
    decide
  · rintro rfl
    exact headerScanner_acts hp rfl
  · refine fails_of hp _ (e := .versionChar) ?_
    unfold headerSwitch
    dsimp only
    rw [if_neg hdot, if_neg hc]

/-- Digits and blanks, of which only the digits count. -/
theorem collects_minor : Collects (headerScanner x) none
    (fun w => ({ p with headersParseState := .httpVersionMinor },
      { m with versionMinor := readDigits (w.filter isDigit), firstLine := [] }))
    (fun c => isDigit c = true ∨ c = sp) fun _ => True := by
  refine .free fun w c hc => headerScanner_acts hp ?_
  rw [List.filter_append]
  unfold headerSwitch
  dsimp only
  rcases hc with hc | rfl
  · rw [if_neg (isDigit.ne hc rfl), if_neg (isDigit.ne hc rfl), if_neg (isDigit.ne hc rfl), if_pos hc,
      List.filter_cons_of_pos hc, List.filter_nil, readDigits_append]
  · rw [if_pos rfl, List.filter_cons_of_neg (by decide), List.filter_nil, List.append_nil]

theorem closed_minor : ClosedBy (headerScanner x) none
    (fun w => ({ p with headersParseState := .httpVersionMinor },
      { m with versionMinor := readDigits (w.filter isDigit), firstLine := [] }))
    (fun c => isDigit c = true ∨ c = sp) Eol
    (fun w c => ({ p with headersParseState := lineState c },
      { m with versionMinor := readDigits (w.filter isDigit), firstLine := [] })) := by
  refine ⟨?_, fun w c hc => ⟨?_, fun heol => ?_⟩⟩
  · rintro c (rfl | rfl)
    · decide
    · decide
  · rintro (rfl | rfl)
    · exact headerScanner_acts hp rfl
    · exact headerScanner_acts hp rfl
  · refine fails_of hp _ (e := .versionChar) ?_
    unfold headerSwitch
    dsimp only
    rw [if_neg fun h => hc (.inr h), if_neg fun h => heol (.inl h), if_neg fun h => heol (.inr h),
      if_neg fun h => hc (.inl h)]

/-- The major version, up to the dot. -/
theorem reads_major (buf : Bytes) :
    Gives x ({ p with headersParseState := .httpVersionMajorStart }, m) buf d rest ↔
      ∃ major cs, buf = major ++ dot :: cs ∧ major ≠ [] ∧ (∀ c ∈ major, isDigit c = true) ∧
        Gives x ({ p with headersParseState := .httpVersionMinorStart },
          { m with versionMajor := readDigits major, firstLine := [] }) cs d rest := by
  have hfirst : ∀ c, isDigit c = true → True ∧
      (headerScanner x).Acts ({ p with headersParseState := .httpVersionMajorStart }, m) c
        (.take ({ p with headersParseState := .httpVersionMajor },
          { m with versionMajor := readDigits [c], firstLine := [] })) := by
    intro c hc
    refine ⟨trivial, headerScanner_acts hp ?_⟩
    rw [readDigits_singleton]
    unfold headerSwitch headerGoto
    dsimp only
    rw [hc]
    rfl
  constructor
  · intro hy
    cases buf with
    | nil => exact absurd hy (not_yields_nil _ d rest)
    | cons b buf =>
      by_cases hb : isDigit b = true
      · obtain ⟨major, _, cs, hbuf, hne, hdig, _, rfl, hnext⟩ :=
          (yields_closed_first (collects_major hp m) (closed_major hp m) hfirst b buf d rest hb).mp hy
        exact ⟨major, cs, hbuf, hne, hdig, hnext⟩
      · refine absurd hy (Fails.not_yields (fails_of hp m (e := .versionChar) ?_) buf d rest)
        unfold headerSwitch
        dsimp only
        rw [if_pos (by simpa using hb)]
  · rintro ⟨major, cs, rfl, hne, hdig, hy⟩
    obtain ⟨b, w, rfl⟩ := List.exists_cons_of_ne_nil hne
    exact (yields_closed_first (collects_major hp m) (closed_major hp m) hfirst b _ d rest
      (hdig b List.mem_cons_self)).mpr ⟨b :: w, dot, cs, rfl, hne, hdig, trivial, rfl, hy⟩

/-- The minor version, up to the end of the line. -/
theorem reads_minor (buf : Bytes) :
    Gives x ({ p with headersParseState := .httpVersionMinorStart }, m) buf d rest ↔
      ∃ minor c cs, buf = minor ++ c :: cs ∧ (∃ b w, minor = b :: w ∧ isDigit b = true) ∧
        (∀ b ∈ minor, isDigit b = true ∨ b = sp) ∧ Eol c ∧
        Gives x ({ p with headersParseState := lineState c },
          { m with versionMinor := readDigits (minor.filter isDigit), firstLine := [] }) cs d rest := by
  have hfirst : ∀ c cs, isDigit c = true →
      (Gives x ({ p with headersParseState := .httpVersionMinorStart }, m) (c :: cs) d rest ↔
        Gives x ({ p with headersParseState := .httpVersionMinor },
          { m with versionMinor := readDigits ([c].filter isDigit), firstLine := [] }) cs d rest) := by
    intro c cs hc
    refine reads_take hp m cs d rest ?_
    rw [List.filter_cons_of_pos hc, List.filter_nil, readDigits_singleton]
    unfold headerSwitch headerGoto
    dsimp only
    rw [hc]
    rfl
  constructor
  · intro hy
    cases buf with
    | nil => exact absurd hy (not_yields_nil _ d rest)
    | cons b buf =>
      by_cases hb : isDigit b = true
      · obtain ⟨w, c, cs, rfl, hw, _, heol, hnext⟩ := (yields_closed (collects_minor hp m)
          (closed_minor hp m) d rest buf [b] trivial).mp ((hfirst b buf hb).mp hy)
        refine ⟨b :: w, c, cs, rfl, ⟨b, w, rfl, hb⟩, ?_, heol, hnext⟩
        intro d hd
        rcases List.mem_cons.mp hd with rfl | hd
        · exact .inl hb
        · exact hw d hd
      · refine absurd hy (Fails.not_yields (fails_of hp m (e := .versionChar) ?_) buf d rest)
        unfold headerSwitch
        dsimp only
        rw [if_pos (by simpa using hb)]
  · rintro ⟨minor, c, cs, rfl, ⟨b, w, rfl, hb⟩, hdig, heol, hy⟩
    refine (hfirst b _ hb).mpr
      ((yields_closed (collects_minor hp m) (closed_minor hp m) d rest _ [b] trivial).mpr ?_)
    exact ⟨w, c, cs, rfl, fun e he => hdig e (List.mem_cons_of_mem b he), trivial, heol, hy⟩

/-- **The version, up to the end of the line.** What stands in the place of the `H` makes no
difference: the version that a CR or an LF sets is overwritten. -/
theorem reads_version (buf : Bytes) :
    Gives x ({ p with headersParseState := .httpVersionH }, m) buf d rest ↔
      ∃ (v : VersionWord) (c : UInt8) (cs : Bytes), v.Ok ∧ buf = v.text ++ c :: cs ∧ Eol c ∧
        Gives x ({ p with headersParseState := lineState c }, withNumbers m v.numbers) cs d rest := by
  have hzero : ∀ b, b = cr ∨ b = lf → headerSwitch x ({ p with headersParseState := .httpVersionH }, m) b =
      .take ({ p with headersParseState := .httpVersionT1 }, withNumbers m (0, 0)) := by
    intro b hb
    rcases hb with rfl | rfl
    · rfl
    · rfl
  -- behind the first letter
  have htail : ∀ (m : HttpRequest) (buf : Bytes),
      Gives x ({ p with headersParseState := .httpVersionT1 }, m) buf d rest ↔
        ∃ major minor c cs, buf = str "TTP/" ++ (major ++ dot :: minor) ++ c :: cs ∧ major ≠ [] ∧
          (∀ b ∈ major, isDigit b = true) ∧ (∃ b w, minor = b :: w ∧ isDigit b = true) ∧
          (∀ b ∈ minor, isDigit b = true ∨ b = sp) ∧ Eol c ∧
          Gives x ({ p with headersParseState := lineState c },
            withNumbers m (readDigits major, readDigits (minor.filter isDigit))) cs d rest := by
    intro m buf
    constructor
    · intro hy
      obtain ⟨_, rfl, h₁⟩ := (reads_letter hp m d rest (fun _ => rfl) _).mp hy
      obtain ⟨_, rfl, h₂⟩ := (reads_letter hp m d rest (fun _ => rfl) _).mp h₁
      obtain ⟨_, rfl, h₃⟩ := (reads_letter hp m d rest (fun _ => rfl) _).mp h₂
      obtain ⟨_, rfl, h₄⟩ := (reads_letter hp m d rest (fun _ => rfl) _).mp h₃
      obtain ⟨major, _, rfl, hne, hmajor, h₅⟩ := (reads_major hp m d rest _).mp h₄
      obtain ⟨minor, c, cs, rfl, hfirst, hminor, heol, hnext⟩ := (reads_minor hp _ d rest _).mp h₅
      refine ⟨major, minor, c, cs, ?_, hne, hmajor, hfirst, hminor, heol, hnext⟩
      simp only [List.append_assoc, List.cons_append]
      rfl
    · rintro ⟨major, minor, c, cs, rfl, hne, hmajor, hfirst, hminor, heol, hy⟩
      simp only [List.append_assoc, List.cons_append]
      refine (reads_letter hp m d rest (fun _ => rfl) _).mpr ⟨_, rfl, ?_⟩
      refine (reads_letter hp m d rest (fun _ => rfl) _).mpr ⟨_, rfl, ?_⟩
      refine (reads_letter hp m d rest (fun _ => rfl) _).mpr ⟨_, rfl, ?_⟩
      refine (reads_letter hp m d rest (fun _ => rfl) _).mpr ⟨_, rfl, ?_⟩
      refine (reads_major hp m d rest _).mpr ⟨major, _, rfl, hne, hmajor, ?_⟩
      exact (reads_minor hp _ d rest _).mpr ⟨minor, c, cs, rfl, hfirst, hminor, heol, hy⟩
  constructor
  · intro hy
    cases buf with
    | nil => exact absurd hy (not_yields_nil _ d rest)
    | cons b buf =>
      by_cases hb : b = cr ∨ b = lf
      · rw [reads_take hp m buf d rest (hzero b hb)] at hy
        obtain ⟨major, minor, c, cs, rfl, hne, hmajor, hfirst, hminor, heol, hnext⟩ := (htail _ buf).mp hy
        exact ⟨⟨b, major, minor⟩, c, cs, ⟨.inr hb, hne, hmajor, hfirst, hminor⟩, rfl, heol, hnext⟩
      · have hletter : headerSwitch x ({ p with headersParseState := .httpVersionH }, m) b =
            expectVersionByte ({ p with headersParseState := .httpVersionH }, m) b 72 .httpVersionT1 :=
          if_neg hb
        by_cases h72 : b = 72
        · rw [reads_take hp m buf d rest (hletter.trans (if_neg fun hn => hn h72))] at hy
          obtain ⟨major, minor, c, cs, rfl, hne, hmajor, hfirst, hminor, heol, hnext⟩ :=
            (htail _ buf).mp hy
          exact ⟨⟨b, major, minor⟩, c, cs, ⟨.inl h72, hne, hmajor, hfirst, hminor⟩, rfl, heol, hnext⟩
        · exact absurd hy ((fails_of hp m (hletter.trans (if_pos h72))).not_yields buf d rest)
  · rintro ⟨⟨b, major, minor⟩, c, cs, ⟨hb, hne, hmajor, hfirst, hminor⟩, rfl, heol, hy⟩
    rcases hb with h72 | hb
    · obtain rfl : b = 72 := h72
      refine (reads_take hp m _ d rest rfl).mpr ((htail m _).mpr ?_)
      exact ⟨major, minor, c, cs, rfl, hne, hmajor, hfirst, hminor, heol, hy⟩
    · refine (reads_take hp m _ d rest (hzero b hb)).mpr ((htail (withNumbers m (0, 0)) _).mpr ?_)
      exact ⟨major, minor, c, cs, rfl, hne, hmajor, hfirst, hminor, heol, hy⟩

/-! ### Behind the method -/

/-- Behind a resource or a query, up to the end of the line. -/
theorem reads_behindTarget {st : HeaderParseState} (hst : st = .uriStem ∨ st = .uriQuery) {c : UInt8}
    (hquestion : st = .uriStem → c ≠ question) (hc : ¬ QueryByte c) :
    Gives x ({ p with headersParseState := st }, m) (c :: cs) d rest ↔
      ∃ (v : Option VersionWord) (c' : UInt8) (cs' : Bytes), (∀ w, v = some w → w.Ok) ∧
        c :: cs = versionPart v ++ c' :: cs' ∧ Eol c' ∧
        Gives x ({ p with headersParseState := lineState c' }, withNumbers m (versionNumbers v)) cs' d
          rest := by
  rw [reads_targetEnd hp m cs d rest hst hquestion hc, reads_version hp m d rest]
  constructor
  · rintro (⟨rfl, v, c', cs', hv, rfl, heol, hy⟩ | ⟨heol, hy⟩)
    · exact ⟨some v, c', cs', fun w hw => Option.some.inj hw ▸ hv, rfl, heol, hy⟩
    · exact ⟨none, c, cs, fun w hw => (by cases hw), rfl, heol, hy⟩
  · rintro ⟨v, c', cs', hv, hbuf, heol, hy⟩
    cases v with
    | none =>
      obtain ⟨rfl, rfl⟩ := List.cons.inj hbuf
      exact .inr ⟨heol, hy⟩
    | some v =>
      obtain ⟨rfl, rfl⟩ := List.cons.inj hbuf
      exact .inl ⟨rfl, v, c', cs', hv v rfl, rfl, heol, hy⟩

/-- **Behind the method, up to the end of the line.** -/
theorem reads_target (buf : Bytes) :
    Gives x ({ p with resource := [], headersParseState := .uriStem }, m) buf d rest ↔
      ∃ resource query version c cs, buf = resource ++ (queryPart query ++ (versionPart version ++ c :: cs)) ∧
        Text ResourceByte resourceMax resource ∧ (∀ q, query = some q → Text QueryByte queryStringMax q) ∧
        (∀ v, version = some v → v.Ok) ∧ Eol c ∧
        Gives x ({ p with
          resource := resource, queryString := query.getD p.queryString, headersParseState := lineState c },
          withNumbers m (versionNumbers version)) cs d rest := by
  refine (yields_word (collects_resource hp m) d rest buf [] (Nat.zero_le _)).trans ?_
  constructor
  · rintro ⟨resource, c, cs, rfl, hbyte, hlen, hc, hy⟩
    by_cases hquestion : c = question
    · subst hquestion
      have hquery := (reads_question (p := { p with resource := resource }) hp m cs d rest).mp hy
      obtain ⟨query, c, cs, rfl, hqbyte, hqlen, hc, hend⟩ := (yields_word
        (collects_query (p := { p with resource := resource }) hp m) d rest cs [] (Nat.zero_le _)).mp hquery
      obtain ⟨v, c', cs', hv, hbuf, heol, hnext⟩ := (reads_behindTarget
        (p := { p with resource := resource, queryString := query }) hp m cs d rest (.inr rfl)
        (fun h => by cases h) hc).mp hend
      refine ⟨resource, some query, v, c', cs', by rw [hbuf]; rfl, ⟨hbyte, hlen⟩, ?_, hv, heol, hnext⟩
      rintro q ⟨⟩
      exact ⟨hqbyte, hqlen⟩
    · obtain ⟨v, c', cs', hv, hbuf, heol, hnext⟩ := (reads_behindTarget
        (p := { p with resource := resource }) hp m cs d rest (.inl rfl) (fun _ => hquestion)
        (fun h => hc ⟨h, hquestion⟩)).mp hy
      exact ⟨resource, none, v, c', cs', by rw [hbuf]; rfl, ⟨hbyte, hlen⟩, fun q hq => (by cases hq), hv,
        heol, hnext⟩
  · rintro ⟨resource, query, v, c, cs, rfl, ⟨hbyte, hlen⟩, hquery, hv, heol, hy⟩
    obtain ⟨c', cs', hend⟩ : ∃ c' cs', versionPart v ++ c :: cs = c' :: cs' :=
      List.exists_cons_of_ne_nil (List.append_ne_nil_of_right_ne_nil _ (List.cons_ne_nil c cs))
    obtain ⟨hc', hquestion⟩ := versionPart_first heol hend
    cases query with
    | none =>
      refine ⟨resource, c', cs', by rw [← hend]; rfl, hbyte, hlen, fun h => hc' h.1, ?_⟩
      exact (reads_behindTarget (p := { p with resource := resource }) hp m cs' d rest (.inl rfl)
        (fun _ => hquestion) hc').mpr ⟨v, c, cs, hv, hend.symm, heol, hy⟩
    | some query =>
      obtain ⟨hqbyte, hqlen⟩ := hquery query rfl
      refine ⟨resource, question, query ++ c' :: cs', by rw [← hend]; rfl, hbyte, hlen, by decide, ?_⟩
      refine (reads_question (p := { p with resource := resource }) hp m _ d rest).mpr ?_
      refine (yields_word (collects_query (p := { p with resource := resource }) hp m) d rest _ []
        (Nat.zero_le _)).mpr ⟨query, c', cs', rfl, hqbyte, hqlen, hc', ?_⟩
      exact (reads_behindTarget (p := { p with resource := resource, queryString := query }) hp m cs' d
        rest (.inr rfl) (fun h => by cases h) hc').mpr ⟨v, c, cs, hv, hend.symm, heol, hy⟩

end line

end Pion.Proof
