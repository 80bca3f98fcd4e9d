import Pion.Proof.Version

/-!
# The space behind a colon

A header value may stand behind its colon with a space between them or without. With the
space, all its bytes are read in one state. Without it, the first byte is read in the state
that looks for the space, and that state asks of it what is asked of the bytes of a name:
a value that begins with a quote, a bracket, a slash or a byte beyond ASCII is an error there.
-/

namespace Pion.Proof

open Pion Lib

variable {x : Externals}

/-- A header whose value does not begin with white space or a control byte. -/
structure SpacedHeader (e : Bytes × Bytes) : Prop extends HeaderOk e where
  value_start : ∀ c ∈ e.2.head?, c ≠ sp ∧ isControl c = false

/-- Behind the line, as far as its CR or LF. -/
def lineState (eol : UInt8) : HeaderParseState :=
  if eol = cr then .expectingNewline else .expectingCr

/-- Whatever ends the line and whatever comes behind it, the line adds this header and no more. -/
def AddsHeader (x : Externals) (s : HeaderState) (line : Bytes) (e : Bytes × Bytes) : Prop :=
  ∀ eol, eol = cr ∨ eol = lf → ∀ rest, ∃ q : HeaderFields, q.headersParseState = lineState eol ∧
    (headerScanner x).run s (line ++ eol :: rest) =
      (headerScanner x).run (q, { s.2 with headers := x.insert s.2.headers e }) rest

/-- The value as far as the first byte of the line end, behind some of its bytes. -/
theorem readValueEnd (p : HeaderFields) (m : HttpRequest) (front : Bytes) {value : Bytes}
    (hbyte : ∀ c ∈ value, ValueByte c) (hlen : (front ++ value).length ≤ headerValueMax) {eol : UInt8}
    (heol : eol = cr ∨ eol = lf) (rest : Bytes) :
    ∃ q : HeaderFields, q.headersParseState = lineState eol ∧
      (headerScanner x).run ({ p with headerValue := front, headersParseState := .headerValue }, m)
          (value ++ eol :: rest) =
        (headerScanner x).run
          (q, { m with headers := x.insert m.headers (p.headerName, front ++ value) }) rest := by
  let p₁ : HeaderFields := { p with headerValue := front ++ value, headersParseState := .headerValue
    }.recordRaw value
  have hend : headerSwitch x (p₁.recordRaw [eol], m) eol =
      .take ({ p₁.recordRaw [eol] with headersParseState := lineState eol },
        { m with headers := x.insert m.headers (p.headerName, front ++ value) }) := by
    rcases heol with rfl | rfl
    · rfl
    · rfl
  exact ⟨_, rfl, (readHeaderValue p m front hbyte hlen (eol :: rest)).trans (headerScanner_take hend)⟩

/-- **With the space**, every value is read. -/
theorem addsHeader_spaced {s : HeaderState} (hs : StartsLine s.1.headersParseState) {e : Bytes × Bytes}
    (he : HeaderOk e) : AddsHeader x s (e.1 ++ colon :: sp :: e.2) e := by
  intro eol heol rest
  let p : HeaderFields := { (s.1.recordRaw e.1).recordRaw [colon] with headerName := e.1 }
  have hsp : headerSwitch x ({ p with headerValue := [], headersParseState := .spaceBeforeHeaderValue
      }.recordRaw [sp], s.2) sp =
      .take ({ p.recordRaw [sp] with headerValue := [], headersParseState := .headerValue }, s.2) := rfl
  obtain ⟨q, hq, hvalue⟩ := readValueEnd (x := x) (p.recordRaw [sp]) s.2 [] he.value_byte
    he.value_length heol rest
  have htext : e.1 ++ colon :: sp :: e.2 ++ eol :: rest =
      e.1 ++ colon :: (sp :: (e.2 ++ eol :: rest)) := by
    simp only [List.append_assoc, List.cons_append]
  refine ⟨q, hq, ?_⟩
  rw [htext]
  exact (readNameColon hs he _).trans ((headerScanner_take hsp).trans hvalue)

/-- **Without the space**, a value is read whose first byte may stand in a name. -/
theorem addsHeader_glued {s : HeaderState} (hs : StartsLine s.1.headersParseState) {e : Bytes × Bytes}
    (he : HeaderOk e) (hfirst : ∀ c ∈ e.2.head?, TokenByte c) :
    AddsHeader x s (e.1 ++ colon :: e.2) e := by
  intro eol heol rest
  let p : HeaderFields := { (s.1.recordRaw e.1).recordRaw [colon] with headerName := e.1 }
  have htext : e.1 ++ colon :: e.2 ++ eol :: rest = e.1 ++ colon :: (e.2 ++ eol :: rest) := by
    simp only [List.append_assoc, List.cons_append]
  rw [htext]
  cases hv : e.2 with
  | nil =>
    have hend : headerSwitch x ({ p with headerValue := [], headersParseState := .spaceBeforeHeaderValue
        }.recordRaw [eol], s.2) eol =
        .take ({ p.recordRaw [eol] with headerValue := [], headersParseState := lineState eol },
          { s.2 with headers := x.insert s.2.headers (e.1, []) }) := by
      rcases heol with rfl | rfl
      · rfl
      · rfl
    rw [show e = (e.1, []) from Prod.ext rfl hv]
    exact ⟨_, rfl, (readNameColon hs he (eol :: rest)).trans (headerScanner_take hend)⟩
  | cons c cs =>
    have hc : TokenByte c := hfirst c (by rw [hv]; rfl)
    have htake : headerSwitch x ({ p with headerValue := [], headersParseState := .spaceBeforeHeaderValue
        }.recordRaw [c], s.2) c =
        .take ({ p.recordRaw [c] with headerValue := [c], headersParseState := .headerValue }, s.2) := by
      unfold headerSwitch
      dsimp only [HeaderFields.recordRaw]
      rw [if_neg (hc.ne_of_special rfl), if_neg (ne_of_control hc.not_control rfl),
        if_neg (ne_of_control hc.not_control rfl), if_neg (Bool.eq_false_iff.mp hc)]
      rfl
    obtain ⟨q, hq, hvalue⟩ := readValueEnd (x := x) (p.recordRaw [c]) s.2 [c]
      (fun d hd => he.value_byte d (by rw [hv]; exact List.mem_cons_of_mem c hd))
      (by rw [List.singleton_append, ← hv]; exact he.value_length) heol rest
    rw [show e = (e.1, c :: cs) from Prod.ext rfl hv]
    exact ⟨q, hq, (readNameColon hs he _).trans ((headerScanner_take htake).trans hvalue)⟩

/-- Any other first byte is an error. -/
theorem rejects_glued {s : HeaderState} (hs : StartsLine s.1.headersParseState) {e : Bytes × Bytes}
    (he : SpacedHeader e) {c : UInt8} {cs : Bytes} (hv : e.2 = c :: cs) (hc : ¬ TokenByte c)
    (rest : Bytes) :
    ∃ q, (headerScanner x).run s (e.1 ++ colon :: e.2 ++ rest) =
      .stop (some .headerChar) (q, s.2) (e.2 ++ rest) := by
  obtain ⟨hsp, hcontrol⟩ := he.value_start c (by rw [hv]; rfl)
  obtain ⟨q, hstop⟩ := refusesGlued (x := x) (s := ({ (s.1.recordRaw e.1).recordRaw [colon] with
    headerName := e.1, headerValue := [], headersParseState := .spaceBeforeHeaderValue }, s.2))
    rfl hsp (.inr hcontrol) hc (cs ++ rest)
  have htext : e.1 ++ colon :: e.2 ++ rest = e.1 ++ colon :: (c :: (cs ++ rest)) := by
    rw [hv, List.append_assoc, List.cons_append, List.cons_append]
  rw [htext, hv, List.cons_append]
  exact ⟨q, (readNameColon hs he.toHeaderOk _).trans hstop⟩

/--
**When the space behind the colon is optional.** In every header block, at the beginning of every
line, both spellings of a header add it, if and only if the first byte of its value is one that
may stand in a name.
-/
theorem space_optional_iff (x : Externals) (s : HeaderState) (hs : StartsLine s.1.headersParseState)
    (e : Bytes × Bytes) (he : SpacedHeader e) :
    (AddsHeader x s (e.1 ++ colon :: e.2) e ∧ AddsHeader x s (e.1 ++ colon :: sp :: e.2) e) ↔
      ∀ c ∈ e.2.head?, TokenByte c := by
  constructor
  · rintro ⟨hglued, _⟩ c hhead
    obtain ⟨cs, hv⟩ := List.head?_eq_some_iff.mp hhead
    by_contra hc
    obtain ⟨q, _, hadds⟩ := hglued cr (.inl rfl) []
    obtain ⟨q', hstop⟩ := rejects_glued (x := x) hs he hv hc [cr]
    rw [hadds, Scanner.run_nil] at hstop
    cases hstop
  · intro hfirst
    exact ⟨addsHeader_glued hs he.toHeaderOk hfirst, addsHeader_spaced hs he.toHeaderOk⟩

/-- Behind the request line. -/
def inHeaders : HeaderState := ({ headersParseState := .headerStart }, .fresh)

theorem space_optional_host :
    AddsHeader plainExternals inHeaders (str "Host:a.b") (str "Host", str "a.b") ∧
      AddsHeader plainExternals inHeaders (str "Host: a.b") (str "Host", str "a.b") :=
  (space_optional_iff plainExternals inHeaders (.inl rfl) (str "Host", str "a.b")
    ⟨by decide +kernel, by decide +kernel⟩).mpr (by decide +kernel)

theorem space_not_optional :
    ¬ (AddsHeader plainExternals inHeaders (str "Host:[::1]") (str "Host", str "[::1]") ∧
      AddsHeader plainExternals inHeaders (str "Host: [::1]") (str "Host", str "[::1]")) := by
  rintro ⟨hglued, _⟩
  obtain ⟨q, _, hadds⟩ := hglued cr (.inl rfl) []
  have hstop : (headerScanner plainExternals).run inHeaders (str "Host:[::1]" ++ [cr]) =
      .stop (some .headerChar) ({ headersParseState := .spaceBeforeHeaderValue, headerName := str "Host" },
        .fresh) (str "[::1]\r") := by decide +kernel
  rw [hadds, Scanner.run_nil] at hstop
  cases hstop

end Pion.Proof
