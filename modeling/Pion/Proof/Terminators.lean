import Pion.Proof.RoundTrip

/-!
# Line terminators

The header loop takes CRLF, LF, CR and LFCR for the end of a line. Each of them leads
through states of its own, and each leaves the loop in a state from which the next header
starts: `HEADER_START` behind CRLF and LFCR, the state that waits for the second byte
behind LF and CR. Three of these states start a header name by a copy of the same code,
and each takes the first byte of the empty line in its own way.

`lineEnds_alike` says that they agree: whichever of the four ends the lines of a block,
the loop reads the same request out of it, and stops at its last byte.
-/

namespace Pion.Proof

open Pion Lib

variable {x : Externals}

/-- What may end a line. -/
inductive LineEnd where
  | crlf | lf | cr | lfcr
  deriving DecidableEq

namespace LineEnd

def text : LineEnd → Bytes
  | crlf => [Pion.cr, Pion.lf]
  | lf => [Pion.lf]
  | cr => [Pion.cr]
  | lfcr => [Pion.lf, Pion.cr]

/-- The state behind the end of a line. -/
def state : LineEnd → HeaderParseState
  | crlf | lfcr => .headerStart
  | lf => .expectingCr
  | cr => .expectingNewline

theorem state_eq_headerStart {e : LineEnd} : e.state = .headerStart ↔ e = crlf ∨ e = lfcr := by
  cases e <;> decide

end LineEnd

/-- A state in which a line may end, and the request behind its end. -/
inductive EndsLine (x : Externals) : HeaderParseState → HeaderState → HttpRequest → Prop
  | requestLine (s : HeaderState) : EndsLine x .httpVersionMinor s s.2
  | header (s : HeaderState) : EndsLine x .headerValue s (addHeader x s).2

/-- **Whatever ends a line, it is over.** -/
theorem readLineEnd (e : LineEnd) {st : HeaderParseState} {p : HeaderFields} {m m' : HttpRequest}
    (h : EndsLine x st (p, m) m') (hm : m'.versionMajor ≠ 0) (rest : Bytes) :
    (headerScanner x).run ({ p with headersParseState := st }, m) (e.text ++ rest) =
      (headerScanner x).run ({ p.recordRaw e.text with headersParseState := e.state }, m') rest := by
  have hcr : headerSwitch x ({ p with headersParseState := st }.recordRaw [cr], m) cr =
      .take ({ p.recordRaw [cr] with headersParseState := .expectingNewline }, m') := by
    cases h with
    | requestLine => rfl
    | header => rfl
  have hlf : headerSwitch x ({ p with headersParseState := st }.recordRaw [lf], m) lf =
      .take ({ p.recordRaw [lf] with headersParseState := .expectingCr }, m') := by
    cases h with
    | requestLine => rfl
    | header => rfl
  cases e with
  | lf => exact headerScanner_take hlf
  | cr => exact headerScanner_take hcr
  | crlf =>
    refine (headerScanner_take hcr).trans ((readNewline (p.recordRaw [cr]) m' hm rest).trans ?_)
    have hraw : (p.recordRaw [cr]).recordRaw [lf] = p.recordRaw [cr, lf] := recordRaw_append p [cr] [lf]
    exact congrArg (fun q : HeaderFields =>
      (headerScanner x).run ({ q with headersParseState := .headerStart }, m') rest) hraw
  | lfcr =>
    have hcr' : headerSwitch x ({ p.recordRaw [lf] with headersParseState := .expectingCr }.recordRaw
        [cr], m') cr = .take ({ (p.recordRaw [lf]).recordRaw [cr] with
          headersParseState := .headerStart }, m') := rfl
    refine (headerScanner_take hlf).trans ((headerScanner_take hcr').trans ?_)
    have hraw : (p.recordRaw [lf]).recordRaw [cr] = p.recordRaw [lf, cr] := recordRaw_append p [lf] [cr]
    exact congrArg (fun q : HeaderFields =>
      (headerScanner x).run ({ q with headersParseState := .headerStart }, m') rest) hraw

theorem LineEnd.startsLine (e : LineEnd) : StartsLine e.state := by
  cases e with
  | crlf | lfcr => exact .inl rfl
  | cr => exact .inr (.inr (.inl rfl))
  | lf => exact .inr (.inr (.inr rfl))

/-- Header lines leave the texts of the request line alone. -/
def SameLine (p q : HeaderFields) : Prop :=
  p.method = q.method ∧ p.resource = q.resource ∧ p.queryString = q.queryString

theorem SameLine.recordRaw {p q : HeaderFields} (h : SameLine p q) (w : Bytes) :
    SameLine (p.recordRaw w) q := h

/-- **Whatever ends the empty line, it ends the headers, at its last byte.** -/
theorem readFinalEnd (e : LineEnd) (p : HeaderFields) (m : HttpRequest) :
    ∃ q : HeaderFields, SameLine q p ∧ ∀ rest,
      (headerScanner x).run ({ p with headersParseState := e.state }, m) (e.text ++ rest) =
        .stop none (q, m) rest := by
  have hdone : ∀ (q : HeaderFields) (st : HeaderParseState) (c : UInt8) (rest : Bytes),
      headerStep x ({ q with headersParseState := st }, m) c =
        .stop none ({ q.recordRaw [c] with headersParseState := st }, m) true →
      (headerScanner x).run ({ q with headersParseState := st }, m) (c :: rest) =
        .stop none ({ q.recordRaw [c] with headersParseState := st }, m) rest :=
    fun _ _ _ _ h => Scanner.ofSymbols_stop h
  cases e with
  | lf =>
    exact ⟨{ p.recordRaw [lf] with headersParseState := .expectingCr }, ⟨rfl, rfl, rfl⟩,
      fun rest => hdone p .expectingCr lf rest rfl⟩
  | cr =>
    exact ⟨{ p.recordRaw [cr] with headersParseState := .expectingNewline }, ⟨rfl, rfl, rfl⟩,
      fun rest => hdone p .expectingNewline cr rest rfl⟩
  | crlf =>
    have hcr : headerSwitch x ({ p with headersParseState := .headerStart }.recordRaw [cr], m) cr =
        .take ({ p.recordRaw [cr] with headersParseState := .expectingFinalNewline }, m) := rfl
    exact ⟨{ (p.recordRaw [cr]).recordRaw [lf] with headersParseState := .expectingFinalNewline },
      ⟨rfl, rfl, rfl⟩, fun rest => (headerScanner_take hcr).trans
        (hdone (p.recordRaw [cr]) .expectingFinalNewline lf rest rfl)⟩
  | lfcr =>
    have hlf : headerSwitch x ({ p with headersParseState := .headerStart }.recordRaw [lf], m) lf =
        .take ({ p.recordRaw [lf] with headersParseState := .expectingFinalCr }, m) := rfl
    exact ⟨{ (p.recordRaw [lf]).recordRaw [cr] with headersParseState := .expectingFinalCr },
      ⟨rfl, rfl, rfl⟩, fun rest => (headerScanner_take hlf).trans
        (hdone (p.recordRaw [lf]) .expectingFinalCr cr rest rfl)⟩

/-! ## A block of headers -/

/-- A header line, with the end it has in this block. -/
def lineText (e : LineEnd) (h : Bytes × Bytes) : Bytes :=
  h.1 ++ (headerNameValueDelimiter ++ (h.2 ++ e.text))

/-- The request line and the headers of a request, with the same end for every line. -/
def requestBlock (e : LineEnd) (r : HttpRequest) : Bytes :=
  r.updateFirstLine ++ (e.text ++ ((r.headers.map (lineText e)).flatten ++ e.text))

/-- **A header line goes to the message as it stands.** -/
theorem readLine (e : LineEnd) (p : HeaderFields) {m : HttpRequest} {h : Bytes × Bytes}
    (hh : HeaderOk h) (hm : m.versionMajor ≠ 0) : ∃ q : HeaderFields, SameLine q p ∧
      ∀ rest, (headerScanner x).run ({ p with headersParseState := e.state }, m) (lineText e h ++ rest) =
        (headerScanner x).run ({ q with headersParseState := e.state },
          { m with headers := x.insert m.headers h }) rest := by
  let p₁ : HeaderFields := { p with headerName := h.1 }.recordRaw h.1
  let p₂ : HeaderFields := { (p₁.recordRaw [colon]).recordRaw [sp] with headerValue := [] }
  let p₃ : HeaderFields := { p₂ with headerValue := h.2 }.recordRaw h.2
  have hcolon : headerSwitch x ({ p₁ with headersParseState := .headerName }.recordRaw [colon], m) colon =
      .take ({ p₁.recordRaw [colon] with headerValue := [], headersParseState := .spaceBeforeHeaderValue },
        m) := rfl
  have hblank : headerSwitch x ({ p₁.recordRaw [colon] with
      headerValue := [], headersParseState := .spaceBeforeHeaderValue }.recordRaw [sp], m) sp =
      .take ({ p₂ with headersParseState := .headerValue }, m) := rfl
  have hname : SameLine { p with headerName := h.1 } p := ⟨rfl, rfl, rfl⟩
  have hcleared : SameLine p₂ p := ((hname.recordRaw h.1).recordRaw [colon]).recordRaw [sp]
  have hread : SameLine { p₂ with headerValue := h.2 } p := hcleared
  refine ⟨p₃.recordRaw e.text, (hread.recordRaw h.2).recordRaw e.text, ?_⟩
  intro rest
  have hvalue := readHeaderValue (x := x) p₂ m [] hh.value_byte hh.value_length (e.text ++ rest)
  unfold lineText
  simp only [List.append_assoc]
  refine (readHeaderName m e.startsLine hh.name_ne hh.name_token hh.name_length _).trans ?_
  refine (headerScanner_take hcolon).trans ((headerScanner_take hblank).trans (hvalue.trans ?_))
  exact readLineEnd e (.header (p₃, m)) hm rest

/-- **A list of header lines goes to the message, and the empty line ends it.** -/
theorem readLines (e : LineEnd) : ∀ (hs : List (Bytes × Bytes)) (p : HeaderFields) (m : HttpRequest),
    (∀ h ∈ hs, HeaderOk h) → m.versionMajor ≠ 0 → ∃ q : HeaderFields, SameLine q p ∧
      ∀ rest, (headerScanner x).run ({ p with headersParseState := e.state }, m)
          ((hs.map (lineText e)).flatten ++ (e.text ++ rest)) =
        .stop none (q, { m with headers := addHeaders x m.headers (hs.map headerLine) }) rest := by
  intro hs
  induction hs with
  | nil =>
    intro p m _ _
    exact readFinalEnd e p m
  | cons h hs ih =>
    intro p m hok hm
    obtain ⟨p₁, hsame₁, hline⟩ := readLine (x := x) e p (hok h List.mem_cons_self) hm
    obtain ⟨q, hsame, hlines⟩ := ih p₁ { m with headers := x.insert m.headers h }
      (fun k hk => hok k (List.mem_cons_of_mem h hk)) hm
    refine ⟨q, ⟨hsame.1.trans hsame₁.1, hsame.2.1.trans hsame₁.2.1, hsame.2.2.trans hsame₁.2.2⟩, ?_⟩
    intro rest
    rw [List.map_cons, List.flatten_cons, List.append_assoc, hline]
    exact hlines rest

/-- The request that `parse_headers` has read, as far as the header block says. -/
structure ReadsBlock (r : HttpRequest) (g : Progress) : Prop where
  method : g.parser.method = r.method
  resource : g.parser.resource = r.resource
  queryString : g.parser.queryString = r.queryString
  versionMajor : g.msg.versionMajor = r.versionMajor
  versionMinor : g.msg.versionMinor = r.versionMinor
  headers : g.msg.headers.Perm r.headers

/-- `parse_headers` on a new parser. -/
def parseNew (x : Externals) (c : ParserSettings) (sizeGarbage readGarbage : Nat) (buf : Bytes) :
    Progress × Tribool :=
  parseHeaders x { parser := c.parser sizeGarbage readGarbage, msg := .fresh, ec := none, unread := buf }

/--
**All four line ends are alike.** With any of them, `parse_headers` on a new parser returns
true at the last byte of a header block and not earlier, and it has read the same request.
-/
theorem lineEnds_alike (r : HttpRequest) (hr : Serialisable r) (e : LineEnd) (c : ParserSettings)
    (sizeGarbage readGarbage : Nat) (rest : Bytes) :
    let parsed := parseNew x c sizeGarbage readGarbage
    (∀ front back, requestBlock e r = front ++ back → back ≠ [] → (parsed front).2 = .indeterminate) ∧
      (parsed (requestBlock e r ++ rest)).2 = .true ∧
      (parsed (requestBlock e r ++ rest)).1.unread = rest ∧
      (parsed (requestBlock e r ++ rest)).1.ec = none ∧
      ReadsBlock r (parsed (requestBlock e r ++ rest)).1 := by
  intro parsed
  let p : HeaderFields := (c.parser sizeGarbage readGarbage).toHeaderFields
  let p₁ : HeaderFields := { p with
    method := r.method, resource := r.resource, queryString := r.queryString }.recordRaw r.updateFirstLine
  let m₁ : HttpRequest := { HttpRequest.fresh with
    versionMajor := r.versionMajor, versionMinor := r.versionMinor, firstLine := [] }
  obtain ⟨q, hsame, hlines⟩ := readLines (x := x) e r.headers (p₁.recordRaw e.text) m₁ hr.headers
    hr.versionMajor_ne
  have hrun : ∀ rest, (headerScanner x).run (p, HttpRequest.fresh) (requestBlock e r ++ rest) =
      .stop none (q, { m₁ with headers := addHeaders x [] (r.headers.map headerLine) }) rest := by
    intro rest
    unfold requestBlock
    simp only [List.append_assoc]
    refine (readFirstLine p HttpRequest.fresh hr rfl _).trans ?_
    exact (readLineEnd e (.requestLine (p₁, m₁)) hr.versionMajor_ne _).trans (hlines rest)
  -- the headers are inserted one by one, in whatever order the map keeps them
  have hperm : (addHeaders x [] (r.headers.map headerLine)).Perm r.headers := by
    have h := addHeaders_perm x (r.headers.map headerLine) []
    rw [List.nil_append, List.map_map] at h
    rwa [show HeaderLine.entry ∘ headerLine = id from rfl, List.map_id] at h
  refine ⟨?_, ?_⟩
  · -- a stop inside the block would leave the back of it unread
    intro front back hblock hback
    have hsplit := (headerScanner x).run_append (Scanner.ofSymbols_splits (headerStep x)) front back
      (p, HttpRequest.fresh) trivial
    have hwhole := hrun []
    rw [List.append_nil, hblock, hsplit] at hwhole
    show (parseHeaders x _).2 = _
    unfold parseHeaders
    dsimp only
    rcases hfront : (headerScanner x).run (p, HttpRequest.fresh) front with s | ⟨o, s, left⟩
    · rfl
    · rw [hfront] at hwhole
      injection hwhole with _ _ hleft
      exact absurd (List.append_eq_nil_iff.mp hleft).2 hback
  · have hread : parsed (requestBlock e r ++ rest) = _ := parseHeaders_done (hrun rest)
    rw [hread]
    exact ⟨rfl, rfl, rfl, hsame.1, hsame.2.1, hsame.2.2, rfl, rfl, hperm⟩

theorem lineEnds_alike_lfcr :
    let r : HttpRequest := { resource := str "/a", headers := [(str "Host", str "h"), (str "X", [])] }
    requestBlock .lfcr r = str "GET /a HTTP/1.1\n\rHost: h\n\rX: \n\r\n\r" ∧
      (parseNew plainExternals {} 0 0 (requestBlock .lfcr r)).2 = .true ∧
      ReadsBlock r (parseNew plainExternals {} 0 0 (requestBlock .lfcr r ++ [])).1 := by
  intro r
  have h := lineEnds_alike (x := plainExternals) r (by decide +kernel) .lfcr {} 0 0 []
  exact ⟨by decide +kernel, by simpa using h.2.1, h.2.2.2.2⟩

end Pion.Proof
