import Pion.Proof.HeadBlocks

/-!
# Heads

The language of the header loop. `heads_accepted` says which bytes `parse_headers` takes
for a head and what it reads out of them, `heads_rejected` that it refuses any others at
the first byte where no head can be hoped for.
-/

namespace Pion.Proof

open Pion Lib

variable {x : Externals}

/-- What a head says. -/
def RequestLine.head (x : Externals) (l : RequestLine) (ls : List HeaderLine) : ReadHead where
  method := l.method
  resource := l.resource
  queryString := l.query.getD []
  msg := { HttpRequest.fresh with
    versionMajor := l.numbers.1, versionMinor := l.numbers.2, headers := addHeaders x [] ls }

/-- **The language of the header loop.** -/
theorem reads_head {p : HeaderFields} (hp : p.saveRawHeaders = false) (m : HttpRequest) (buf : Bytes)
    (d : ReadHead) (rest : Bytes) :
    Gives x ({ p with headersParseState := .methodStart }, m) buf d rest ↔
      ∃ (l : RequestLine) (ls : List HeaderLine) (block : Bytes), l.Ok ∧
        HeaderBlock l.numbers.1 rest l.lineEnd ls block ∧ buf = l.text ++ block ∧
        d = behindBlock x { p with
          method := l.method, resource := l.resource, queryString := l.query.getD p.queryString }
          (withNumbers m l.numbers) ls := by
  rw [reads_method hp m d rest]
  constructor
  · rintro ⟨lead, method, cs, rfl, hlead, hne, hmethod, hy⟩
    obtain ⟨resource, query, version, c, cs, rfl, hresource, hquery, hversion, heol, hline⟩ :=
      (reads_target (p := { p with method := method }) hp m d rest cs).mp hy
    obtain ⟨e, ls, block, htext, he, hblock, hd⟩ := block_of_reads cs.length cs (Nat.le_refl _)
      (p := { p with method := method, resource := resource, queryString := query.getD p.queryString })
      hp (withNumbers m (versionNumbers version)) c heol hline
    refine ⟨⟨lead, method, resource, query, version, e⟩, ls, block,
      ⟨hlead, hne, hmethod, hresource, hquery, hversion, he⟩, hblock, ?_, hd⟩
    rw [htext]
    unfold RequestLine.text
    simp only [List.append_assoc, List.cons_append]
  · rintro ⟨⟨lead, method, resource, query, version, e⟩, ls, block, hl, hblock, rfl, rfl⟩
    obtain ⟨c, w, htext, heol, hend⟩ := reads_lineEnd (x := x)
      (p := { p with method := method, resource := resource, queryString := query.getD p.queryString })
      hp (withNumbers m (versionNumbers version))
      (behindBlock x { p with
        method := method, resource := resource, queryString := query.getD p.queryString }
        (withNumbers m (versionNumbers version)) ls) rest e hl.lineEnd
    refine ⟨lead, method, resource ++ (queryPart query ++ (versionPart version ++ c :: (w ++ block))),
      ?_, hl.leading, hl.method_ne, hl.method, ?_⟩
    · unfold RequestLine.text
      rw [htext]
      simp only [List.append_assoc, List.cons_append]
    refine (reads_target (p := { p with method := method }) hp m _ rest _).mpr
      ⟨resource, query, version, c, w ++ block, rfl, hl.resource, hl.query, hl.version, heol, ?_⟩
    refine (hend block).mpr (reads_of_block hblock
      (p := { p with method := method, resource := resource, queryString := query.getD p.queryString })
      hp (withNumbers m (versionNumbers version)) rfl)

/-- From every state of the header loop, some bytes end a head. -/
theorem headerStep_viable (s : HeaderState) : Viable (headerStep x) none s := by
  obtain ⟨⟨st, code, msg, method, resource, query, raw, name, value, save⟩, m⟩ := s
  cases st with
  | methodStart => exact ⟨str "G \r\r", _, _, rfl⟩
  | method => exact ⟨str " \r\r", _, _, rfl⟩
  | uriStem | uriQuery => exact ⟨str "\r\r", _, _, rfl⟩
  | httpVersionH => exact ⟨str "HTTP/1.1\r\r", _, _, rfl⟩
  | httpVersionT1 => exact ⟨str "TTP/1.1\r\r", _, _, rfl⟩
  | httpVersionT2 => exact ⟨str "TP/1.1\r\r", _, _, rfl⟩
  | httpVersionP => exact ⟨str "P/1.1\r\r", _, _, rfl⟩
  | httpVersionSlash => exact ⟨str "/1.1\r\r", _, _, rfl⟩
  | httpVersionMajorStart => exact ⟨str "1.1\r\r", _, _, rfl⟩
  | httpVersionMajor => exact ⟨str ".1\r\r", _, _, rfl⟩
  | httpVersionMinorStart => exact ⟨str "1\r\r", _, _, rfl⟩
  | httpVersionMinor => exact ⟨str "\r\r", _, _, rfl⟩
  | statusCodeStart => exact ⟨str "1\r\r", _, _, rfl⟩
  | statusCode | statusMessage => exact ⟨str "\r\r", _, _, rfl⟩
  | expectingNewline => exact ⟨str "\r", _, _, rfl⟩
  | expectingCr => exact ⟨str "\n", _, _, rfl⟩
  | headerWhitespace => exact ⟨str "\r\r", _, _, rfl⟩
  | headerStart => exact ⟨str "\r\n", _, _, rfl⟩
  | headerName => exact ⟨str ":\r\r", _, _, rfl⟩
  | spaceBeforeHeaderValue | headerValue => exact ⟨str "\r\r", _, _, rfl⟩
  | expectingFinalNewline => exact ⟨str "\n", _, _, rfl⟩
  | expectingFinalCr => exact ⟨str "\r", _, _, rfl⟩

/-- An error does not use up the byte. -/
def ErrorUnused : HeaderAction → Prop
  | .take _ => True
  | .stop r _ used => r ≠ none → used = false

theorem headerSwitch_errorUnused (s : HeaderState) (c : UInt8) : ErrorUnused (headerSwitch x s c) := by
  have herror : ∀ e, ErrorUnused (headerError s e) := fun _ _ => rfl
  have hdone : ∀ used, ErrorUnused (.stop none s used) := fun _ h => absurd rfl h
  unfold headerSwitch expectVersionByte startHeaderName
  dsimp only
  cases s.1.headersParseState <;> dsimp only
  all_goals
    repeat' apply of_ite
    all_goals
      first
      | exact herror _
      | exact hdone _
      | exact trivial

/-- The header loop leaves the byte that it refuses. -/
theorem headerStep_error_unused {s t : HeaderState} {c : UInt8} {r : Option ErrorValue} {used : Bool}
    (h : headerStep x s c = .stop r t used) (hr : r ≠ none) : used = false := by
  have hunused : ErrorUnused (headerSwitch x (s.1.recordRaw [c], s.2) c) := headerSwitch_errorUnused _ c
  unfold headerStep at h
  rw [h] at hunused
  exact hunused hr

/-! ## New parsers -/

section new

variable (c : ParserSettings) (i j : Nat) (buf : Bytes)

/-- A new parser in front of its first head. -/
def newState (c : ParserSettings) : HeaderState := ({ saveRawHeaders := c.saveRawHeaders }, .fresh)

theorem parseNew_accepts (d : ReadHead) (rest : Bytes) :
    ((parseNew x c i j buf).2 = .true ∧ (parseNew x c i j buf).1.unread = rest ∧
      readHead ((parseNew x c i j buf).1.parser.toHeaderFields, (parseNew x c i j buf).1.msg) = d) ↔
      Gives x (newState c) buf d rest := by
  unfold parseNew parseHeaders
  dsimp only
  show _ ↔ ∃ t, (headerScanner x).run (newState c) buf = _ ∧ _
  rw [show ((c.parser i j).toHeaderFields, HttpRequest.fresh) = newState c from rfl]
  rcases (headerScanner x).run (newState c) buf with s | ⟨_ | e, s, left⟩
  · exact ⟨fun h => (by cases h.1), fun h => (by obtain ⟨t, h, _⟩ := h; cases h)⟩
  · constructor
    · rintro ⟨_, rfl, hd⟩
      exact ⟨s, rfl, hd⟩
    · rintro ⟨t, hrun, hd⟩
      cases hrun
      exact ⟨rfl, rfl, hd⟩
  · exact ⟨fun h => (by cases h.1), fun h => (by obtain ⟨t, h, _⟩ := h; cases h)⟩

theorem parseNew_rejects (rest : Bytes) :
    ((parseNew x c i j buf).2 = .false ∧ (parseNew x c i j buf).1.unread = rest) ↔
      ∃ r t, (headerScanner x).run (newState c) buf = .stop r t rest ∧ r ≠ none := by
  unfold parseNew parseHeaders
  dsimp only
  rw [show ((c.parser i j).toHeaderFields, HttpRequest.fresh) = newState c from rfl]
  rcases (headerScanner x).run (newState c) buf with s | ⟨_ | e, s, left⟩
  · exact ⟨fun h => (by cases h.1), fun h => (by obtain ⟨r, t, h, _⟩ := h; cases h)⟩
  · refine ⟨fun h => (by cases h.1), ?_⟩
    rintro ⟨r, t, hrun, hr⟩
    cases hrun
    exact absurd rfl hr
  · constructor
    · rintro ⟨_, rfl⟩
      exact ⟨some e, s, rfl, fun h => by cases h⟩
    · rintro ⟨r, t, hrun, _⟩
      cases hrun
      exact ⟨rfl, rfl⟩

/-- The bytes begin with a head. -/
def HasHead (bytes : Bytes) : Prop :=
  ∃ (l : RequestLine) (ls : List HeaderLine) (block rest : Bytes), l.Ok ∧
    HeaderBlock l.numbers.1 rest l.lineEnd ls block ∧ bytes = l.text ++ block

theorem reads_new (d : ReadHead) (rest : Bytes) :
    Gives x (newState c) buf d rest ↔
      ∃ (l : RequestLine) (ls : List HeaderLine) (block : Bytes), l.Ok ∧
        HeaderBlock l.numbers.1 rest l.lineEnd ls block ∧ buf = l.text ++ block ∧ d = l.head x ls := by
  have hplain : SameButRaw (newState c) (({} : HeaderFields), HttpRequest.fresh) := rfl
  exact (reads_sameButRaw hplain buf d rest).trans
    (reads_head (p := {}) rfl HttpRequest.fresh buf d rest)

theorem continues_new (front : Bytes) :
    Continues (headerStep x) none (newState c) front ↔ ∃ later, HasHead (front ++ later) := by
  constructor
  · rintro ⟨later, t, rest, hrun⟩
    obtain ⟨l, ls, block, hl, hblock, hbuf, _⟩ := (reads_new c _ _ rest).mp ⟨t, hrun, rfl⟩
    exact ⟨later, l, ls, block, rest, hl, hblock, hbuf⟩
  · rintro ⟨later, l, ls, block, rest, hl, hblock, hbuf⟩
    obtain ⟨t, hrun, _⟩ := (reads_new (x := x) c _ _ rest).mpr ⟨l, ls, block, hl, hblock, hbuf, rfl⟩
    exact ⟨later, t, rest, hrun⟩

/--
**What `parse_headers` accepts, and what it reads.** On a new parser with any settings, it
returns true and leaves `rest` behind if and only if the buffer is a head, as the grammar has
it, with `rest` behind it; and what it has read is what the head says.
-/
theorem heads_accepted (d : ReadHead) (rest : Bytes) :
    ((parseNew x c i j buf).2 = .true ∧ (parseNew x c i j buf).1.unread = rest ∧
      readHead ((parseNew x c i j buf).1.parser.toHeaderFields, (parseNew x c i j buf).1.msg) = d) ↔
      ∃ (l : RequestLine) (ls : List HeaderLine) (block : Bytes), l.Ok ∧
        HeaderBlock l.numbers.1 rest l.lineEnd ls block ∧ buf = l.text ++ block ∧ d = l.head x ls :=
  (parseNew_accepts c i j buf d rest).trans (reads_new c buf d rest)

/--
**What it refuses.** It returns false at a byte if and only if what stands in front of the byte
can still become a head, and with the byte it cannot, whatever comes behind.
-/
theorem heads_rejected (rest : Bytes) :
    ((parseNew x c i j buf).2 = .false ∧ (parseNew x c i j buf).1.unread = rest) ↔
      ∃ front b tail, buf = front ++ b :: tail ∧ rest = b :: tail ∧ (∃ later, HasHead (front ++ later)) ∧
        ¬ ∃ later, HasHead (front ++ [b] ++ later) := by
  have hfails : (∃ r t, (headerScanner x).run (newState c) buf = .stop r t rest ∧ r ≠ none) ↔ _ :=
    fails_iff headerStep_viable (fun s c r t used => headerStep_error_unused) (newState c) buf rest
  simp only [continues_new] at hfails
  exact (parseNew_rejects c i j buf rest).trans hfails

end new

/-- What the grammar lets pass: no `H`, a digit behind a blank, lines of blanks, and line ends of
any kind. -/
example : (parseNew plainExternals {} 0 0
    (str "\r\nGET /?q \nTTP/1.1 5\n \t\r\n  a:b\n\rc: \r\r")).2 = .true := by
  decide +kernel

end Pion.Proof
