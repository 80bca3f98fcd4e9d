import Pion.Proof.Version

/-!
# Requests without a version

The request line of HTTP 0.9 ends behind the resource. The state that expects the `H` of
`HTTP` means to allow a space in front of that end: for a CR and for an LF it sets the
version and picks the state behind a line. But all its branches end in one assignment, which
puts the loop in front of a `T` instead.
-/

namespace Pion.Proof

open Pion Lib

variable {x : Externals}

/-- A request line without a version. -/
structure SimpleLine where
  method : Bytes
  resource : Bytes
  query : Option Bytes := none

namespace SimpleLine

structure Ok (l : SimpleLine) : Prop where
  method_ne : l.method ≠ []
  method_token : ∀ c ∈ l.method, TokenByte c
  method_length : l.method.length ≤ methodMax
  resource_byte : ∀ c ∈ l.resource, ResourceByte c
  resource_length : l.resource.length ≤ resourceMax
  query_byte : ∀ q ∈ l.query, ∀ c ∈ q, QueryByte c
  query_length : ∀ q ∈ l.query, q.length ≤ queryStringMax

def queryText (l : SimpleLine) : Bytes :=
  match l.query with
  | none => []
  | some q => question :: q

def uri (l : SimpleLine) : Bytes := l.resource ++ l.queryText

def plain (l : SimpleLine) : Bytes := l.method ++ (sp :: (l.uri ++ stringCrlf))

/-- With a space behind the URI. -/
def spaced (l : SimpleLine) : Bytes := l.method ++ (sp :: (l.uri ++ (sp :: stringCrlf)))

/-- The state in which the URI ends. -/
def uriState (l : SimpleLine) : HeaderParseState :=
  match l.query with
  | none => .uriStem
  | some _ => .uriQuery

/-- What is left of the line in the parser, but for the raw headers. -/
def fields (l : SimpleLine) (p : HeaderFields) : HeaderFields :=
  { p with method := l.method, resource := l.resource, queryString := l.query.getD p.queryString }

end SimpleLine

/-- The line, as far as the end of its URI. -/
theorem readSimpleUri (p : HeaderFields) (m : HttpRequest) {l : SimpleLine} (hl : l.Ok) (rest : Bytes) :
    ∃ raw, (headerScanner x).run ({ p with headersParseState := .methodStart }, m)
        (l.method ++ (sp :: (l.uri ++ rest))) =
      (headerScanner x).run
        ({ l.fields p with rawHeaders := raw, headersParseState := l.uriState }, m) rest := by
  let p₁ : HeaderFields := { p with method := l.method }.recordRaw l.method
  let p₂ : HeaderFields := p₁.recordRaw [sp]
  let p₃ : HeaderFields := { p₂ with resource := l.resource }.recordRaw l.resource
  have hsp : headerSwitch x (({ p with method := l.method, headersParseState := .method
      }.recordRaw l.method).recordRaw [sp], m) sp =
      .take ({ p₂ with resource := [], headersParseState := .uriStem }, m) := rfl
  have hstem := ((readMethod (x := x) p m hl.method_ne hl.method_token hl.method_length _).trans
    (headerScanner_take hsp)).trans
    (readResource p₂ m hl.resource_byte hl.resource_length (l.queryText ++ rest))
  rw [show l.uri ++ rest = l.resource ++ (l.queryText ++ rest) from List.append_assoc _ _ _]
  unfold SimpleLine.queryText at hstem ⊢
  unfold SimpleLine.uriState SimpleLine.fields
  cases hq : l.query with
  | none =>
    rw [hq] at hstem
    exact ⟨_, hstem⟩
  | some q =>
    rw [hq] at hstem
    have hmark : headerSwitch x ({ p₃ with headersParseState := .uriStem }.recordRaw [question], m)
        question = .take ({ p₃.recordRaw [question] with
          queryString := [], headersParseState := .uriQuery }, m) := rfl
    have hquery := readQuery (x := x) (p₃.recordRaw [question]) m (hl.query_byte q hq)
      (hl.query_length q hq) rest
    exact ⟨_, hstem.trans ((headerScanner_take hmark).trans hquery)⟩

/-- Without the space the line ends the headers, and the version is zero. -/
theorem readSimpleEnd (p : HeaderFields) (m : HttpRequest) (l : SimpleLine) :
    ∃ raw, (headerScanner x).run ({ p with headersParseState := l.uriState }, m) stringCrlf =
      .stop none ({ p with rawHeaders := raw, headersParseState := .expectingNewline },
        { m with versionMajor := 0, versionMinor := 0, firstLine := [] }) [] := by
  let q : HeaderFields := { p with headersParseState := .expectingNewline }.recordRaw [cr]
  let m₀ : HttpRequest := { m with versionMajor := 0, versionMinor := 0, firstLine := [] }
  have hcr : headerSwitch x ({ p with headersParseState := l.uriState }.recordRaw [cr], m) cr =
      .take (q, m₀) := by
    unfold SimpleLine.uriState
    cases l.query <;> rfl
  have hlf : headerStep x (q, m₀) lf = .stop none (q.recordRaw [lf], m₀) true := rfl
  exact ⟨_, (headerScanner_take hcr).trans (Scanner.ofSymbols_stop hlf)⟩

/-- With the space it does not: behind the CR the loop waits for a `T`. -/
theorem readSimpleSpace (p : HeaderFields) (m : HttpRequest) (l : SimpleLine) :
    ∃ q m', (headerScanner x).run ({ p with headersParseState := l.uriState }, m) (sp :: stringCrlf) =
      .stop (some .versionChar) (q, m') [lf] := by
  let q : HeaderFields := { p with headersParseState := .httpVersionH }.recordRaw [sp]
  let m₀ : HttpRequest := { m with versionMajor := 0, versionMinor := 0, firstLine := [] }
  have hsp : headerSwitch x ({ p with headersParseState := l.uriState }.recordRaw [sp], m) sp =
      .take (q, m) := by
    unfold SimpleLine.uriState
    cases l.query <;> rfl
  have hcr : headerSwitch x (q.recordRaw [cr], m) cr =
      .take ({ q.recordRaw [cr] with headersParseState := .httpVersionT1 }, m₀) := rfl
  have hlf : headerStep x ({ q.recordRaw [cr] with headersParseState := .httpVersionT1 }, m₀) lf =
      .stop (some .versionChar) ({ q.recordRaw [cr] with headersParseState := .httpVersionT1
        }.recordRaw [lf], m₀) false := rfl
  exact ⟨_, _, (headerScanner_take hsp).trans ((headerScanner_take hcr).trans (Scanner.ofSymbols_stop hlf))⟩

/-! ## What `parse_headers` says -/

/-- `parse_headers` finds the request at the last byte of its text. Without a query the query
string stays what it was `before`. -/
structure ReadsSimple (l : SimpleLine) (before : Bytes) (r : Progress × Tribool) : Prop where
  rc : r.2 = .true
  unread : r.1.unread = []
  versionMajor : r.1.msg.versionMajor = 0
  versionMinor : r.1.msg.versionMinor = 0
  method : r.1.parser.method = l.method
  resource : r.1.parser.resource = l.resource
  queryString : r.1.parser.queryString = l.query.getD before

theorem start_eq {g : Progress} (hstart : g.parser.headersParseState = .methodStart) :
    g.parser.toHeaderFields = { g.parser.toHeaderFields with headersParseState := .methodStart } := by
  rw [← hstart]

theorem readsSimple_plain {g : Progress} (hstart : g.parser.headersParseState = .methodStart)
    {l : SimpleLine} (hl : l.Ok) :
    ReadsSimple l g.parser.queryString (parseHeaders x { g with unread := l.plain }) := by
  obtain ⟨raw, huri⟩ := readSimpleUri (x := x) g.parser.toHeaderFields g.msg hl stringCrlf
  obtain ⟨raw', hend⟩ := readSimpleEnd (x := x) { l.fields g.parser.toHeaderFields with rawHeaders := raw }
    g.msg l
  have hrun := huri.trans hend
  rw [← start_eq hstart] at hrun
  rw [parseHeaders_done (g := { g with unread := l.plain }) hrun]
  exact ⟨rfl, rfl, rfl, rfl, rfl, rfl, rfl⟩

/-- The space makes the line an error, which is found at its LF. -/
theorem rejects_spaced {g : Progress} (hstart : g.parser.headersParseState = .methodStart)
    {l : SimpleLine} (hl : l.Ok) :
    (parseHeaders x { g with unread := l.spaced }).2 = .false ∧
      (parseHeaders x { g with unread := l.spaced }).1.ec = some .versionChar ∧
      (parseHeaders x { g with unread := l.spaced }).1.unread = [lf] := by
  obtain ⟨raw, huri⟩ := readSimpleUri (x := x) g.parser.toHeaderFields g.msg hl (sp :: stringCrlf)
  obtain ⟨q, m', hend⟩ := readSimpleSpace (x := x)
    { l.fields g.parser.toHeaderFields with rawHeaders := raw } g.msg l
  have hrun := huri.trans hend
  rw [← start_eq hstart] at hrun
  unfold parseHeaders SimpleLine.spaced
  dsimp only
  rw [show ({ g.parser with bytesLastRead := 0 } : HttpParser).toHeaderFields = g.parser.toHeaderFields
    from rfl]
  rw [hrun]
  exact ⟨rfl, rfl, rfl⟩

/--
**A space in front of the line end is never optional.** Every request line without a version
is accepted as it is, and with a space behind the URI it is rejected, whatever it asks for.
-/
theorem simpleRequest_space (x : Externals) (g : Progress)
    (hstart : g.parser.headersParseState = .methodStart) (l : SimpleLine) (hl : l.Ok) :
    ReadsSimple l g.parser.queryString (parseHeaders x { g with unread := l.plain }) ∧
      ¬ ReadsSimple l g.parser.queryString (parseHeaders x { g with unread := l.spaced }) ∧
      (parseHeaders x { g with unread := l.spaced }).1.ec = some .versionChar := by
  obtain ⟨hfalse, hec, _⟩ := rejects_spaced (x := x) hstart hl
  refine ⟨readsSimple_plain hstart hl, fun h => ?_, hec⟩
  have htrue := h.rc
  rw [hfalse] at htrue
  cases htrue

theorem simpleLine_ok : (⟨str "GET", str "/", some (str "a=b")⟩ : SimpleLine).Ok where
  method_ne := by decide
  method_token := by decide
  method_length := by decide
  resource_byte := by decide
  resource_length := by decide
  query_byte := by decide
  query_length := by decide

theorem simpleRequest_space_get :
    ReadsSimple ⟨str "GET", str "/", some (str "a=b")⟩ []
        (parseHeaders plainExternals (newProgress (str "GET /?a=b\r\n"))) ∧
      ¬ ReadsSimple ⟨str "GET", str "/", some (str "a=b")⟩ []
        (parseHeaders plainExternals (newProgress (str "GET /?a=b \r\n"))) ∧
      (parseHeaders plainExternals (newProgress (str "GET /?a=b \r\n"))).1.ec = some .versionChar :=
  simpleRequest_space plainExternals (newProgress []) rfl ⟨str "GET", str "/", some (str "a=b")⟩
    simpleLine_ok

theorem simpleRequest_space_rejected :
    ¬ ReadsSimple ⟨str "GET", str "/", none⟩ []
      (parseHeaders plainExternals (newProgress (str "GET / \r\n"))) := by
  intro h
  have hfalse : (parseHeaders plainExternals (newProgress (str "GET / \r\n"))).2 = .false := by
    decide +kernel
  have htrue := h.rc
  rw [hfalse] at htrue
  cases htrue

end Pion.Proof
