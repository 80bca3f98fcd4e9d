import Pion.Proof.Chunked
import Pion.Proof.Reset
import Pion.Proof.RoundTrip

/-!
# Parsed requests are clean

Which bytes can get into a request, and how many. The texts of the request line and of
the headers are put together byte by byte in a dozen states of the header loop, and each
of them has to look at the class of the byte and at the length. Four states start a
header name by the same code; one state starts a header value without a look at the
length, and is only ever entered with an empty one.

No other part of the parser writes these texts, so they are clean behind any calls of
`parse`, also behind those that fail.
-/

namespace Pion.Proof

open Pion Lib

variable {x : Externals} {hook : Hook}

/-- A text of no more than `max` bytes, all of which are good. -/
structure Text (good : UInt8 → Prop) (max : Nat) (w : Bytes) : Prop where
  byte : ∀ c ∈ w, good c
  length : w.length ≤ max

section text

variable {good : UInt8 → Prop} {max : Nat}

theorem text_nil : Text good max [] := ⟨fun c hc => (by cases hc), Nat.zero_le max⟩

theorem text_single {c : UInt8} (hc : good c) (hmax : 1 ≤ max) : Text good max [c] :=
  ⟨fun _ hd => (List.mem_singleton.mp hd) ▸ hc, hmax⟩

theorem Text.push {w : Bytes} {c : UInt8} (h : Text good max w) (hlen : ¬ w.length ≥ max)
    (hc : good c) : Text good max (w ++ [c]) := by
  refine ⟨?_, ?_⟩
  · intro d hd
    rcases List.mem_append.mp hd with hd | hd
    · exact h.byte d hd
    · exact (List.mem_singleton.mp hd) ▸ hc
  · rw [List.length_append, List.length_singleton]
    omega

end text

theorem TokenByte.valueByte {c : UInt8} (h : TokenByte c) : ValueByte c := Or.inr h.not_control

/-! ## One byte of the headers -/

/-- The texts that the header loop has collected are clean. -/
structure CleanFields (p : HeaderFields) : Prop where
  method : Text TokenByte methodMax p.method
  resource : Text ResourceByte resourceMax p.resource
  queryString : Text QueryByte queryStringMax p.queryString
  headerName : Text TokenByte headerNameMax p.headerName
  headerValue : Text ValueByte headerValueMax p.headerValue
  /-- A header that is about to be added has a name. -/
  named : ReadsName p.headersParseState → p.headerName ≠ []
  /-- The first byte of a value is taken without a look at the length. -/
  empty : p.headersParseState = .spaceBeforeHeaderValue → p.headerValue = []

/-- The texts of a request are clean. -/
structure CleanRequest (m : HttpRequest) : Prop where
  method : Text TokenByte methodMax m.method
  resource : Text ResourceByte resourceMax m.resource
  queryString : Text QueryByte queryStringMax m.queryString
  header : ∀ e ∈ m.headers, HeaderOk e

/-- What the header loop keeps. -/
structure CleanState (s : HeaderState) : Prop where
  fields : CleanFields s.1
  request : CleanRequest s.2

/-- What a step leaves is clean. -/
def CleanAction : HeaderAction → Prop
  | .take s => CleanState s
  | .stop _ s _ => CleanState s

theorem CleanFields.recordRaw {p : HeaderFields} (h : CleanFields p) (bs : Bytes) :
    CleanFields (p.recordRaw bs) :=
  { h with }

theorem CleanAction.ite {q : Prop} [Decidable q] {a b : HeaderAction} (ha : q → CleanAction a)
    (hb : ¬ q → CleanAction b) : CleanAction (if q then a else b) := by
  split
  · rename_i hq
    exact ha hq
  · rename_i hq
    exact hb hq

section step

variable {s : HeaderState}

theorem cleanAction_goto (h : CleanState s) {st : HeaderParseState} (hname : ¬ ReadsName st) :
    CleanAction (headerGoto s st) := by
  refine ⟨{ h.fields with named := fun hr => absurd hr hname, empty := ?_ }, h.request⟩
  intro hst
  obtain rfl : st = .spaceBeforeHeaderValue := hst
  exact absurd trivial hname

theorem cleanAction_error (h : CleanState s) (e : ErrorValue) : CleanAction (headerError s e) := h

theorem cleanAction_version (h : CleanState s) (c expected : UInt8) {st : HeaderParseState}
    (hname : ¬ ReadsName st) : CleanAction (expectVersionByte s c expected st) :=
  .ite (fun _ => cleanAction_error h _) (fun _ => cleanAction_goto h hname)

/-- The four states that start a header name. -/
theorem cleanAction_startName (h : CleanState s) (c : UInt8) : CleanAction (startHeaderName s c) := by
  refine .ite (fun _ => cleanAction_error h _) (fun hc => ?_)
  exact ⟨{ h.fields with
    headerName := text_single (Bool.eq_false_iff.mpr hc) (by decide)
    named := fun _ => List.cons_ne_nil c []
    empty := fun hst => (by cases hst) }, h.request⟩

theorem cleanState_addHeader (h : CleanState s) (hname : s.1.headerName ≠ []) :
    CleanState (addHeader x s) := by
  refine ⟨h.fields, h.request.method, h.request.resource, h.request.queryString, ?_⟩
  intro e he
  rcases List.mem_cons.mp ((x.insert_perm s.2.headers _).mem_iff.mp he) with rfl | he
  · exact ⟨hname, h.fields.headerName.byte, h.fields.headerName.length, h.fields.headerValue.byte,
      h.fields.headerValue.length⟩
  · exact h.request.header e he

theorem cleanState_setVersionZero (h : CleanState s) : CleanState (setVersionZero s) :=
  ⟨h.fields, { h.request with }⟩

end step

theorem headerSwitch_clean {s : HeaderState} (h : CleanState s) (c : UInt8) :
    CleanAction (headerSwitch x s c) := by
  obtain ⟨⟨st, code, msg, method, resource, query, raw, name, value, save⟩, m⟩ := s
  have hf := h.fields
  have hmajor : ∀ n, CleanState (_, { m with versionMajor := n, firstLine := [] }) := fun _ =>
    ⟨hf, { h.request with }⟩
  have hminor : ∀ n, CleanState (_, { m with versionMinor := n, firstLine := [] }) := fun _ =>
    ⟨hf, { h.request with }⟩
  unfold headerSwitch
  cases st <;> dsimp only
  case methodStart =>
    refine .ite (fun _ => .ite (fun _ => h) (fun hc => ?_)) (fun _ => h)
    exact ⟨{ hf with
      method := text_single (Bool.eq_false_iff.mpr hc) (by decide)
      named := False.elim
      empty := fun hst => (by cases hst) }, h.request⟩
  case method =>
    refine .ite (fun _ => ?_) (fun _ => .ite (fun _ => h) (fun hc => .ite (fun _ => h) (fun hlen => ?_)))
    · exact ⟨{ hf with
        resource := text_nil, named := False.elim, empty := fun hst => (by cases hst) }, h.request⟩
    · exact ⟨{ hf with method := hf.method.push hlen (Bool.eq_false_iff.mpr hc) }, h.request⟩
  case uriStem =>
    refine .ite (fun _ => cleanAction_goto h False.elim) (fun hsp => .ite (fun _ => ?_) (fun hq => ?_))
    · exact ⟨{ hf with
        queryString := text_nil, named := False.elim, empty := fun hst => (by cases hst) }, h.request⟩
    refine .ite (fun _ => cleanAction_goto (cleanState_setVersionZero h) False.elim) (fun _ => ?_)
    refine .ite (fun _ => cleanAction_goto (cleanState_setVersionZero h) False.elim) (fun _ => ?_)
    refine .ite (fun _ => h) (fun hc => .ite (fun _ => h) (fun hlen => ?_))
    exact ⟨{ hf with
      resource := hf.resource.push hlen ⟨⟨Bool.eq_false_iff.mpr hc, hsp⟩, hq⟩ }, h.request⟩
  case uriQuery =>
    refine .ite (fun _ => cleanAction_goto h False.elim) (fun hsp => ?_)
    refine .ite (fun _ => cleanAction_goto (cleanState_setVersionZero h) False.elim) (fun _ => ?_)
    refine .ite (fun _ => cleanAction_goto (cleanState_setVersionZero h) False.elim) (fun _ => ?_)
    refine .ite (fun _ => h) (fun hc => .ite (fun _ => h) (fun hlen => ?_))
    exact ⟨{ hf with
      queryString := hf.queryString.push hlen ⟨Bool.eq_false_iff.mpr hc, hsp⟩ }, h.request⟩
  case httpVersionH =>
    exact .ite (fun _ => cleanAction_goto (cleanState_setVersionZero h) False.elim)
      (fun _ => cleanAction_version h c 72 False.elim)
  case httpVersionT1 | httpVersionT2 | httpVersionP | httpVersionSlash =>
    exact cleanAction_version h c _ False.elim
  case headerName =>
    refine .ite (fun _ => ?_) (fun _ => .ite (fun _ => h) (fun hc => .ite (fun _ => h) (fun hlen => ?_)))
    · exact ⟨{ hf with
        headerValue := text_nil, named := fun _ => hf.named trivial, empty := fun _ => rfl }, h.request⟩
    · exact ⟨{ hf with
        headerName := hf.headerName.push hlen (Bool.eq_false_iff.mpr hc)
        named := fun _ => List.append_ne_nil_of_right_ne_nil _ (List.cons_ne_nil c [])
        empty := fun hst => (by cases hst) }, h.request⟩
  case spaceBeforeHeaderValue =>
    have hadd := cleanState_addHeader (x := x) h (hf.named trivial)
    obtain rfl : value = [] := hf.empty rfl
    refine .ite (fun _ => ?_) (fun _ => ?_)
    · exact ⟨{ hf with
        named := fun _ => hf.named trivial, empty := fun hst => (by cases hst) }, h.request⟩
    refine .ite (fun _ => cleanAction_goto hadd False.elim) (fun _ => ?_)
    refine .ite (fun _ => cleanAction_goto hadd False.elim) (fun _ => .ite (fun _ => h) (fun hc => ?_))
    have hc : TokenByte c := Bool.eq_false_iff.mpr hc
    exact ⟨{ hf with
      headerValue := text_single hc.valueByte (by decide)
      named := fun _ => hf.named trivial
      empty := fun hst => (by cases hst) }, h.request⟩
  case headerValue =>
    have hadd := cleanState_addHeader (x := x) h (hf.named trivial)
    refine .ite (fun _ => cleanAction_goto hadd False.elim) (fun _ => ?_)
    refine .ite (fun _ => cleanAction_goto hadd False.elim) (fun _ => ?_)
    refine .ite (fun _ => h) (fun hc => .ite (fun _ => h) (fun hlen => ?_))
    have hc : ValueByte c := by
      by_cases htab : c = tab
      · exact Or.inl htab
      · exact Or.inr (Bool.eq_false_iff.mpr fun hctl => hc ⟨htab, hctl⟩)
    exact ⟨{ hf with
      headerValue := hf.headerValue.push hlen hc
      named := fun _ => hf.named trivial
      empty := fun hst => (by cases hst) }, h.request⟩
  case expectingFinalNewline | expectingFinalCr => exact h
  -- the other states collect no text
  all_goals
    repeat'
      first
      | exact cleanAction_startName h c
      | refine CleanAction.ite (fun _ => ?_) (fun _ => ?_)
    all_goals
      first
      | exact h
      | exact hmajor _
      | exact hminor _
      | exact cleanAction_goto h False.elim
      | exact cleanAction_goto (hmajor _) False.elim
      | exact cleanAction_goto (hminor _) False.elim
      | exact ⟨{ hf with named := False.elim, empty := fun hst => (by cases hst) }, h.request⟩

theorem headerStep_clean {s : HeaderState} (h : CleanState s) (c : UInt8) :
    CleanAction (headerStep x s c) :=
  headerSwitch_clean (s := (s.1.recordRaw [c], s.2)) ⟨h.fields.recordRaw [c], h.request⟩ c

/-- **The texts that the header loop collects stay clean.** -/
theorem headerScanner_clean {s : HeaderState} (h : CleanState s) (buf : Bytes) :
    (∀ s', (headerScanner x).run s buf = .more s' → CleanState s') ∧
      ∀ r s' rest, (headerScanner x).run s buf = .stop r s' rest → CleanState s' := by
  have hnext : ∀ t c cs t' rest, CleanState t → (headerScanner x).step t c cs = .next t' rest →
      CleanState t' := by
    intro t c cs t' rest ht hst
    have hstep := headerStep_clean (x := x) ht c
    rw [headerScanner_next hst] at hstep
    exact hstep
  have hstop : ∀ t c cs r t' rest, CleanState t → (headerScanner x).step t c cs = .stop r t' rest →
      CleanState t' := by
    intro t c cs r t' rest ht hst
    obtain ⟨u, hu, _⟩ := headerScanner_stop hst
    have hstep := headerStep_clean (x := x) ht c
    rw [hu] at hstep
    exact hstep
  exact ⟨fun s' hrun => (headerScanner x).more_keeps hnext buf s s' h hrun,
    fun r s' rest hrun => (headerScanner x).stop_keeps hnext hstop buf s r s' rest h hrun⟩

/-! ## The rest of the parser -/

/-- The texts of a request. -/
def requestTexts (m : HttpRequest) : Bytes × Bytes × Bytes × Dict :=
  (m.method, m.resource, m.queryString, m.headers)

theorem CleanRequest.congr {m m' : HttpRequest} (h : CleanRequest m)
    (heq : requestTexts m' = requestTexts m) : CleanRequest m' := by
  unfold requestTexts at heq
  simp only [Prod.mk.injEq] at heq
  obtain ⟨h1, h2, h3, h4⟩ := heq
  exact ⟨h1 ▸ h.method, h2 ▸ h.resource, h3 ▸ h.queryString, h4 ▸ h.header⟩

/-- A parser and its message. -/
def CleanPair (p : HttpParser) (m : HttpRequest) : Prop := CleanState (p.toHeaderFields, m)

theorem parseHeaders_clean {g : Progress} (h : CleanPair g.parser g.msg) :
    CleanPair (parseHeaders x g).1.parser (parseHeaders x g).1.msg := by
  obtain ⟨hmore, hstop⟩ := headerScanner_clean (x := x) h g.unread
  unfold parseHeaders
  dsimp only
  split
  · rename_i s hrun
    exact hmore s hrun
  · rename_i s rest hrun
    exact hstop none s rest hrun
  · rename_i e s rest hrun
    exact hstop (some e) s rest hrun

theorem updateMessage_texts (p : HttpParser) (m : HttpRequest) :
    requestTexts (updateMessageWithHeaderData x p m) =
      (p.method, p.resource, p.queryString, m.headers) := by
  unfold updateMessageWithHeaderData
  dsimp only
  split
  · rfl
  · rfl

theorem finishHeaderParsing_clean {g : Progress} (h : CleanPair g.parser g.msg) :
    CleanPair (finishHeaderParsing x hook g).1.parser (finishHeaderParsing x hook g).1.msg := by
  have hbefore : CleanPair (beforeFraming x g.parser g.msg).1 (beforeFraming x g.parser g.msg).2 := by
    have hheaders : ∀ m : HttpMessage, m.updateTransferEncodingUsingHeader.headers = m.headers := by
      intro m
      unfold HttpMessage.updateTransferEncodingUsingHeader
      split
      · rfl
      · rfl
    obtain ⟨h1, h2⟩ := Prod.mk.inj (updateMessage_texts (x := x) g.parser
      { g.msg with toHttpMessage :=
          { g.msg.toHttpMessage with contentLength := 0 }.updateTransferEncodingUsingHeader })
    obtain ⟨h2, h3⟩ := Prod.mk.inj h2
    obtain ⟨h3, h4⟩ := Prod.mk.inj h3
    refine ⟨h.fields, ?_, ?_, ?_, ?_⟩
    · exact h1 ▸ h.fields.method
    · exact h2 ▸ h.fields.resource
    · exact h3 ▸ h.fields.queryString
    · exact (h4.trans (hheaders _)) ▸ h.request.header
  rw [finishHeaderParsing_eq]
  split
  · exact hbefore
  · rename_i p m rc hd
    obtain ⟨hp, hm⟩ := decideFraming_frame hd
    have hframed : CleanPair p m := by
      refine ⟨?_, hbefore.request.congr (by rw [hm]; rfl)⟩
      rw [hp]
      exact hbefore.fields
    split
    · exact hframed
    · exact hframed

theorem parseHeadersCase_clean {g : Progress} (h : CleanPair g.parser g.msg) (t : Nat) :
    CleanPair (parseHeadersCase x hook g t).1.parser (parseHeadersCase x hook g t).1.msg := by
  have hread := parseHeaders_clean (x := x) h
  unfold parseHeadersCase
  dsimp only
  split
  · exact finishHeaderParsing_clean hread
  · exact hread

theorem parseChunksCase_clean {g : Progress} (h : CleanPair g.parser g.msg) (t : Nat) :
    CleanPair (parseChunksCase g t).1.parser (parseChunksCase g t).1.msg := by
  have hf := h.fields
  have hread : CleanPair (parseChunks g).1.parser (parseChunks g).1.msg := by
    unfold parseChunks
    dsimp only
    split
    · exact ⟨hf, h.request.congr rfl⟩
    · exact ⟨hf, h.request.congr rfl⟩
    · -- the header loop will start a new name
      exact ⟨⟨hf.method, hf.resource, hf.queryString, hf.headerName, hf.headerValue, False.elim,
        fun hst => (by cases hst)⟩, h.request.congr rfl⟩
    · exact ⟨hf, h.request.congr rfl⟩
    · exact ⟨hf, h.request.congr rfl⟩
  unfold parseChunksCase
  dsimp only
  split
  · exact hread
  · split
    · exact ⟨hread.fields, hread.request.congr rfl⟩
    · exact hread

theorem consumeContent_clean {g : Progress} (h : CleanPair g.parser g.msg) :
    CleanPair (consumeContent g).1.parser (consumeContent g).1.msg := by
  have hstore : ∀ p m data, requestTexts (storeContent p m data) = requestTexts m := by
    intro p m data
    rw [storeContent_frame]
    rfl
  unfold consumeContent
  dsimp only
  split
  · exact h
  · split
    · split
      · exact h
      · exact h
    · exact ⟨h.fields, h.request.congr (hstore _ _ _)⟩

theorem consumeContentAsNextChunk_clean {g : Progress} (h : CleanPair g.parser g.msg) :
    CleanPair (consumeContentAsNextChunk g).1.parser (consumeContentAsNextChunk g).1.msg := by
  unfold consumeContentAsNextChunk
  dsimp only
  split
  · exact h
  · split
    · split
      · exact h
      · exact h
    · exact ⟨h.fields, h.request.congr rfl⟩

theorem parseSwitch_clean {g : Progress} (h : CleanPair g.parser g.msg) (t : Nat) :
    CleanPair (parseSwitch x hook g t).1.parser (parseSwitch x hook g t).1.msg := by
  unfold parseSwitch
  cases g.parser.messageParseState <;> dsimp only
  case start =>
    exact parseHeadersCase_clean
      (g := { g with parser := { g.parser with messageParseState := .headers } }) h t
  case headers | footers => exact parseHeadersCase_clean h t
  case chunks => exact parseChunksCase_clean h t
  case content =>
    split
    · exact consumeContent_clean h
    · exact consumeContent_clean h
  case contentNoLength =>
    split
    · exact consumeContentAsNextChunk_clean h
    · exact consumeContentAsNextChunk_clean h
  case «end» => exact h

theorem parseEnd_clean {g : Progress} (h : CleanPair g.parser g.msg) (t : Nat)
    (rc : Except Exn Tribool) :
    CleanPair (parseEnd x g t rc).parser (parseEnd x g t rc).msg := by
  rcases rc with e | b
  · exact h
  cases b with
  | false => exact ⟨h.fields, h.request.congr rfl⟩
  | indeterminate => exact h
  | true =>
    have hdone := finish_concluded (x := x) g.parser g.msg
    unfold parseEnd
    dsimp only
    rcases hfin : finish x { g.parser with messageParseState := .end } g.msg with ⟨m, e⟩
    rw [hfin] at hdone
    have hm : CleanRequest m := h.request.congr (by rw [show m = _ from hdone]; rfl)
    cases e with
    | none => exact ⟨h.fields, hm⟩
    | some e => exact ⟨h.fields, hm⟩

theorem parse_clean {p : HttpParser} {m : HttpRequest} (h : CleanPair p m) (ec : Option ErrorValue)
    (buf : Bytes) : CleanPair (parse x hook p m ec buf).parser (parse x hook p m ec buf).msg := by
  have hopened : CleanPair (opened p m ec buf).parser (opened p m ec buf).msg := by
    refine ⟨h.fields, h.request.congr ?_⟩
    show requestTexts (noteMissingPackets m) = requestTexts m
    rw [noteMissingPackets_frame]
    rfl
  have hloop : CleanPair (parseLoop x hook 3 (opened p m ec buf) 0).1.parser
      (parseLoop x hook 3 (opened p m ec buf) 0).1.msg :=
    parseLoop_invariant (Q := fun g _ _ => CleanPair g.parser g.msg)
      (fun g t hg => parseSwitch_clean hg t) 3 (opened p m ec buf) 0 hopened
  exact parseEnd_clean hloop _ _

theorem cleanRequest_fresh : CleanRequest HttpRequest.fresh :=
  ⟨⟨by decide +kernel, by decide⟩, text_nil, text_nil, fun e he => (by cases he)⟩

/-- **Parsed requests are clean and bounded.** Behind any calls of `parse` on a new parser and a
new request, the collected texts and the texts of the request consist of the bytes that may
stand in them, and no text is longer than its limit. -/
theorem parsed_clean (c : ParserSettings) (sizeGarbage readGarbage : Nat) (calls : List ParseCall) :
    let s := afterCalls x (c.parser sizeGarbage readGarbage, HttpRequest.fresh) calls
    CleanFields s.1.toHeaderFields ∧ CleanRequest s.2 := by
  intro s
  have hfresh : CleanPair (c.parser sizeGarbage readGarbage) HttpRequest.fresh :=
    ⟨⟨text_nil, text_nil, text_nil, text_nil, text_nil, False.elim, fun _ => rfl⟩,
      cleanRequest_fresh⟩
  have hcalls : CleanPair s.1 s.2 := by
    refine List.foldlRecOn (motive := fun s : HttpParser × HttpRequest => CleanPair s.1 s.2) calls _
      hfresh ?_
    intro t ht call _
    exact parse_clean (p := t.1) (m := t.2) ht call.ec call.buf
  exact ⟨hcalls.fields, hcalls.request⟩

end Pion.Proof
