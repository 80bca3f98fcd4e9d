import Pion.HttpParser

/-!
# The phases of a message

What one pass of the loop in `parse` can do, phase by phase: where it can go from
each message state, and what it leaves alone. Everything later in the
development looks at the loop through these facts.

The order of the phases is the reason the loop ends. Headers are followed by a
body, a chunked body by trailers, and a pass that stays in its phase has used up
the buffer.
-/

namespace Pion.Proof

open Pion Lib

variable {x : Externals} {hook : Hook}

/-! ## Handlers that do not throw -/

/-- The handler returns normally, whatever it is given. -/
def NoThrow (h : PayloadHandler) : Prop := ∀ given span, h.throws given span = false

/-- The parser's payload handler, if there is one, does not throw. -/
def Calm (p : ChunkFields) : Prop := ∀ h, p.payloadHandler = some h → NoThrow h

/-- The hook sets no payload handler that throws. -/
def CalmHook (hook : Hook) : Prop :=
  ∀ m ec rc r, hook m ec rc = .ok r → ∀ h, r.payloadHandler = some h → NoThrow h

theorem calm_none {p : ChunkFields} (h : p.payloadHandler = none) : Calm p := by
  intro k hk
  rw [h] at hk
  cases hk

theorem calm_some {p : ChunkFields} {k : PayloadHandler} (h : p.payloadHandler = some k)
    (hk : NoThrow k) : Calm p := by
  intro k' hk'
  rw [h] at hk'
  injection hk' with he
  exact he ▸ hk

theorem deliver_noThrow {h : PayloadHandler} (hh : NoThrow h) (p : ChunkFields) (span : Bytes) :
    p.deliver h span = some { p with delivered := p.delivered ++ span } := by
  unfold ChunkFields.deliver
  rw [hh p.delivered span]
  rfl

/-! ## One pass over the header loop -/

/-- The header loop writes the version and the headers of its message, nothing else. -/
def HeaderFrame (m m' : HttpRequest) : Prop :=
  m' = { m with versionMajor := m'.versionMajor, versionMinor := m'.versionMinor,
                firstLine := m'.firstLine, headers := m'.headers }

/-- What one pass leaves: a framed message, or an unchanged state when it stops. -/
def HeaderPass (s : HeaderState) : HeaderAction → Prop
  | .take s' => HeaderFrame s.2 s'.2
  | .stop _ s' _ => s' = s

theorem pass_error (s : HeaderState) (e : ErrorValue) : HeaderPass s (headerError s e) := rfl

theorem startHeaderName_pass (s : HeaderState) (c : UInt8) : HeaderPass s (startHeaderName s c) :=
  of_ite (pass_error s _) rfl

theorem expectVersionByte_pass (s : HeaderState) (c e : UInt8) (st : HeaderParseState) :
    HeaderPass s (expectVersionByte s c e st) :=
  of_ite (pass_error s _) rfl

theorem headerSwitch_pass (s : HeaderState) (c : UInt8) : HeaderPass s (headerSwitch x s c) := by
  unfold headerSwitch
  dsimp only
  cases s.1.headersParseState <;> dsimp only
  all_goals
    repeat' apply of_ite
    all_goals
      first
      | exact pass_error s _
      | exact startHeaderName_pass s c
      | exact expectVersionByte_pass s c _ _
      | exact rfl

theorem HeaderFrame.trans {m₁ m₂ m₃ : HttpRequest} (h : HeaderFrame m₁ m₂) (h' : HeaderFrame m₂ m₃) :
    HeaderFrame m₁ m₃ := by
  unfold HeaderFrame at *
  rw [h', h]

theorem headerStep_frame {s s' : HeaderState} {c : UInt8} (h : headerStep x s c = .take s') :
    HeaderFrame s.2 s'.2 := by
  have hp := headerSwitch_pass (x := x) (s.1.recordRaw [c], s.2) c
  rw [headerStep] at h
  rw [h] at hp
  exact hp

theorem headerStep_stop {s s' : HeaderState} {c : UInt8} {r : Option ErrorValue} {u : Bool}
    (h : headerStep x s c = .stop r s' u) : s' = (s.1.recordRaw [c], s.2) := by
  have hp := headerSwitch_pass (x := x) (s.1.recordRaw [c], s.2) c
  rw [headerStep] at h
  rw [h] at hp
  exact hp

theorem headerScanner_next {s s' : HeaderState} {c : UInt8} {cs rest : Bytes}
    (h : (headerScanner x).step s c cs = .next s' rest) : headerStep x s c = .take s' := by
  change (headerStep x s c).onBuffer c cs = _ at h
  cases hs : headerStep x s c with
  | take t => rw [hs] at h; injection h with h1 _; rw [h1]
  | stop r t u => rw [hs] at h; cases h

theorem headerScanner_stop {s s' : HeaderState} {c : UInt8} {cs rest : Bytes}
    {r : Option ErrorValue} (h : (headerScanner x).step s c cs = .stop r s' rest) :
    ∃ u, headerStep x s c = .stop r s' u ∧ rest = if u then cs else c :: cs := by
  change (headerStep x s c).onBuffer c cs = _ at h
  cases hs : headerStep x s c with
  | take t => rw [hs] at h; cases h
  | stop r' t u =>
    rw [hs] at h
    injection h with h1 h2 h3
    exact ⟨u, by rw [h1, h2], h3.symm⟩

/-- The message a header run leaves behind is a framed one. -/
theorem headerScanner_more_frame {s s' : HeaderState} {buf : Bytes}
    (h : (headerScanner x).run s buf = .more s') : HeaderFrame s.2 s'.2 := by
  refine (headerScanner x).more_keeps (P := fun t => HeaderFrame s.2 t.2) ?_ buf s s' rfl h
  intro t c cs t' rest ht hst
  exact ht.trans (headerStep_frame (headerScanner_next hst))

theorem headerScanner_stop_frame {s s' : HeaderState} {buf rest : Bytes} {r : Option ErrorValue}
    (h : (headerScanner x).run s buf = .stop r s' rest) : HeaderFrame s.2 s'.2 := by
  refine (headerScanner x).stop_keeps (P := fun t => HeaderFrame s.2 t.2)
    (Q := fun t => HeaderFrame s.2 t.2) ?_ ?_ buf s r s' rest rfl h
  · intro t c cs t' rest ht hst
    exact ht.trans (headerStep_frame (headerScanner_next hst))
  · intro t c cs r t' rest ht hst
    obtain ⟨u, hu, _⟩ := headerScanner_stop hst
    rw [headerStep_stop hu]
    exact ht

/-- What a header run leaves is the back of its buffer. -/
theorem headerScanner_suffix {s s' : HeaderState} {buf rest : Bytes} {r : Option ErrorValue}
    (h : (headerScanner x).run s buf = .stop r s' rest) : rest <:+ buf :=
  (headerScanner x).stop_suffix (fun _ _ _ _ _ hst => SymbolAction.onBuffer_next hst)
    (fun _ _ _ _ _ _ hst => SymbolAction.onBuffer_stop hst) buf s r s' rest h

/-! ## One pass over the chunk loop -/

/-- The chunk loop keeps the handler and the limit. -/
def ChunkFrame (p q : ChunkFields) : Prop :=
  q.payloadHandler = p.payloadHandler ∧ q.maxContentLength = p.maxContentLength

theorem ChunkFrame.calm {p q : ChunkFields} (h : ChunkFrame p q) (hp : Calm p) : Calm q := by
  intro k hk
  rw [h.1] at hk
  exact hp k hk

/-- What one pass leaves: a framed state, or an unchanged one when it stops. -/
def ChunkPass (s : ChunkState) : SymbolAction ChunkState Halt → Prop
  | .take s' => ChunkFrame s.1 s'.1
  | .stop _ s' _ => s' = s

theorem chunkSwitch_pass (s : ChunkState) (c : UInt8) : ChunkPass s (chunkSwitch s c) := by
  unfold chunkSwitch
  dsimp only
  cases s.1.chunkedContentParseState <;> dsimp only
  all_goals
    repeat' apply of_ite
    all_goals
      first
      | exact rfl
      | exact ⟨rfl, rfl⟩

theorem endOfChunk_frame (s : ChunkState) : ChunkFrame s.1 (endOfChunk s).1 := by
  unfold endOfChunk
  split
  · exact ⟨rfl, rfl⟩
  · exact ⟨rfl, rfl⟩

theorem deliver_frame {p q : ChunkFields} {h : PayloadHandler} {span : Bytes}
    (hd : p.deliver h span = some q) : ChunkFrame p q := by
  unfold ChunkFields.deliver at hd
  split at hd
  · cases hd
  · injection hd with hd
    subst hd
    exact ⟨rfl, rfl⟩

theorem chunkData_frame {s s' : ChunkState} {c : UInt8} {cs rest : Bytes}
    (h : chunkData s c cs = .next s' rest) : ChunkFrame s.1 s'.1 := by
  unfold chunkData at h
  dsimp only at h
  split at h
  · split at h
    · split at h
      · cases h
      · rename_i q hq
        injection h with h1 _
        subst h1
        have hd := deliver_frame hq
        exact ⟨(endOfChunk_frame _).1.trans hd.1, (endOfChunk_frame _).2.trans hd.2⟩
    · split at h
      · injection h with h1 _
        subst h1
        exact endOfChunk_frame _
      · injection h with h1 _
        subst h1
        exact endOfChunk_frame s
  · injection h with h1 _
    subst h1
    exact endOfChunk_frame s

theorem chunkData_stop {s s' : ChunkState} {c : UInt8} {cs rest : Bytes} {r : Halt}
    (h : chunkData s c cs = .stop r s' rest) : s' = s ∧ rest = c :: cs := by
  unfold chunkData at h
  dsimp only at h
  split at h
  · split at h
    · split at h
      · injection h with _ h2 h3
        exact ⟨h2.symm, h3.symm⟩
      · cases h
    · split at h <;> cases h
  · cases h

theorem chunkStep_frame {s s' : ChunkState} {c : UInt8} {cs rest : Bytes}
    (h : chunkStep s c cs = .next s' rest) : ChunkFrame s.1 s'.1 := by
  unfold chunkStep at h
  split at h
  · exact chunkData_frame h
  · have hp := chunkSwitch_pass s c
    cases hs : chunkSwitch s c with
    | take t => rw [hs] at h hp; injection h with h1 _; rw [← h1]; exact hp
    | stop r t u => rw [hs] at h; cases h

theorem chunkData_suffix {s s' : ChunkState} {c : UInt8} {cs rest : Bytes}
    (h : chunkData s c cs = .next s' rest) : rest <:+ c :: cs := by
  unfold chunkData at h
  dsimp only at h
  split at h
  · split at h
    · split at h
      · cases h
      · cases h
        exact List.drop_suffix _ _
    · split at h
      · cases h
        exact List.suffix_cons c _
      · cases h
        exact List.suffix_cons c _
  · cases h
    exact List.suffix_cons c _

theorem chunkStep_stop {s s' : ChunkState} {c : UInt8} {cs rest : Bytes} {r : Halt}
    (h : chunkStep s c cs = .stop r s' rest) : s' = s ∧ rest <:+ c :: cs := by
  unfold chunkStep at h
  split at h
  · obtain ⟨h1, h2⟩ := chunkData_stop h
    exact ⟨h1, h2 ▸ List.suffix_refl _⟩
  · refine ⟨?_, SymbolAction.onBuffer_stop h⟩
    have hp := chunkSwitch_pass s c
    cases hs : chunkSwitch s c with
    | take t => rw [hs] at h; cases h
    | stop r t u =>
      rw [hs] at h hp
      injection h with _ h2 _
      exact h2 ▸ hp

theorem chunkScanner_more_frame {s s' : ChunkState} {buf : Bytes}
    (h : chunkScanner.run s buf = .more s') : ChunkFrame s.1 s'.1 := by
  refine chunkScanner.more_keeps (P := fun t => ChunkFrame s.1 t.1) ?_ buf s s' ⟨rfl, rfl⟩ h
  intro t c cs t' rest ht hst
  have hf := chunkStep_frame hst
  exact ⟨hf.1.trans ht.1, hf.2.trans ht.2⟩

theorem chunkScanner_stop_frame {s s' : ChunkState} {buf rest : Bytes} {r : Halt}
    (h : chunkScanner.run s buf = .stop r s' rest) : ChunkFrame s.1 s'.1 := by
  refine chunkScanner.stop_keeps (P := fun t => ChunkFrame s.1 t.1)
    (Q := fun t => ChunkFrame s.1 t.1) ?_ ?_ buf s r s' rest ⟨rfl, rfl⟩ h
  · intro t c cs t' rest ht hst
    have hf := chunkStep_frame hst
    exact ⟨hf.1.trans ht.1, hf.2.trans ht.2⟩
  · intro t c cs r t' rest ht hst
    rw [(chunkStep_stop hst).1]
    exact ht

/-- What a chunk run leaves is the back of its buffer. -/
theorem chunkScanner_suffix {s s' : ChunkState} {buf rest : Bytes} {r : Halt}
    (h : chunkScanner.run s buf = .stop r s' rest) : rest <:+ buf := by
  refine chunkScanner.stop_suffix ?_ (fun _ _ _ _ _ _ hst => (chunkStep_stop hst).2) buf s r s' rest h
  intro t c cs t' rest hst
  change chunkStep t c cs = _ at hst
  unfold chunkStep at hst
  split at hst
  · exact chunkData_suffix hst
  · exact SymbolAction.onBuffer_next hst

/-! ## The order of the phases -/

/-- How many passes the loop in `parse` can take from here. -/
def passes : MessageParseState → Nat
  | .start | .headers => 3
  | .chunks => 2
  | .footers | .content | .contentNoLength | .end => 1

theorem passes_pos (st : MessageParseState) : 1 ≤ passes st := by
  cases st <;> decide

/-- The flags that only the front of `parse` sets. -/
def missing (m : HttpRequest) : Bool × Bool := (m.hasMissingPackets, m.hasDataAfterMissing)

theorem HeaderFrame.missing_eq {m m' : HttpRequest} (h : HeaderFrame m m') :
    missing m' = missing m := by
  rw [h]
  rfl

theorem updateMessage_missing (p : HttpParser) (m : HttpRequest) :
    missing (updateMessageWithHeaderData x p m) = missing m := by
  unfold updateMessageWithHeaderData
  dsimp only
  split <;> rfl

theorem beforeFraming_missing (p : HttpParser) (m : HttpRequest) :
    missing (beforeFraming x p m).2 = missing m := by
  unfold beforeFraming
  dsimp only
  rw [updateMessage_missing]
  unfold HttpMessage.updateTransferEncodingUsingHeader
  split <;> rfl

theorem updateContentLength_frame {m m' : HttpMessage}
    (h : m.updateContentLengthUsingHeader x = some m') :
    m' = { m with contentLength := m'.contentLength } := by
  unfold HttpMessage.updateContentLengthUsingHeader at h
  split at h
  · injection h with h
    subst h
    rfl
  · obtain ⟨n, _, hn⟩ := Option.map_eq_some_iff.mp h
    subst hn
    rfl

/-- The framing decision writes the state of the parser, and the content of the message. -/
theorem decideFraming_frame {p p' : HttpParser} {m m' : HttpRequest} {rc : Tribool}
    (h : decideFraming x p m = some (p', m', rc)) :
    p' = { p with messageParseState := p'.messageParseState
                  bytesContentRemaining := p'.bytesContentRemaining } ∧
      m' = { m with contentLength := m'.contentLength, contentBuf := m'.contentBuf } := by
  unfold decideFraming at h
  split at h
  · cases h
    exact ⟨rfl, rfl⟩
  split at h
  · split at h
    · cases h
    · rename_i msg hmsg
      have hframe := updateContentLength_frame hmsg
      dsimp only at h
      split at h
      · cases h
        refine ⟨rfl, ?_⟩
        dsimp only
        rw [hframe]
      · split at h
        · cases h
          refine ⟨rfl, ?_⟩
          split
          · dsimp only
            rw [hframe]
          · dsimp only
            rw [hframe]
        · cases h
          refine ⟨rfl, ?_⟩
          unfold HttpMessage.createContentBuffer
          split
          · dsimp only
            rw [hframe]
          · dsimp only
            rw [hframe]
  · cases h
    exact ⟨rfl, rfl⟩

/-- Where the framing decision can lead to, and that content is only waited for if there is some. -/
theorem decideFraming_state {p p' : HttpParser} {m m' : HttpRequest} {rc : Tribool}
    (h : decideFraming x p m = some (p', m', rc)) :
    p'.messageParseState = .chunks ∨
      p'.messageParseState = .content ∧ 0 < p'.bytesContentRemaining ∨
      p'.messageParseState = .end := by
  unfold decideFraming at h
  split at h
  · cases h
    exact Or.inl rfl
  split at h
  · split at h
    · cases h
    · dsimp only at h
      split at h
      · cases h
        exact Or.inr (Or.inr rfl)
      · rename_i hne
        split at h
        · cases h
          exact Or.inr (Or.inl ⟨rfl, Nat.pos_of_ne_zero hne⟩)
        · cases h
          exact Or.inr (Or.inl ⟨rfl, Nat.pos_of_ne_zero hne⟩)
  · cases h
    exact Or.inr (Or.inr rfl)

/-- What the framing decision can lead to. -/
theorem decideFraming_cases {p p' : HttpParser} {m m' : HttpRequest} {rc : Tribool}
    (h : decideFraming x p m = some (p', m', rc)) :
    (p'.messageParseState = .chunks ∨ p'.messageParseState = .content ∨
      p'.messageParseState = .end) ∧ p'.toChunkFields = p.toChunkFields ∧ missing m' = missing m := by
  obtain ⟨hp, hm⟩ := decideFraming_frame h
  refine ⟨?_, by rw [hp], by rw [hm]; rfl⟩
  rcases decideFraming_state h with hst | ⟨hst, _⟩ | hst
  · exact Or.inl hst
  · exact Or.inr (Or.inl hst)
  · exact Or.inr (Or.inr hst)

theorem calm_orElse {p : HttpParser} {r : Option PayloadHandler} (hp : Calm p.toChunkFields)
    (hr : ∀ h, r = some h → NoThrow h) :
    Calm { p with payloadHandler := r <|> p.payloadHandler }.toChunkFields := by
  intro h hh
  cases r with
  | none => exact hp h hh
  | some k => exact hr h hh

/-! ## The loop of `parse` -/

theorem parseSwitch_start [Memory] {g : Progress} (h : g.parser.messageParseState = .start) (t : Nat) :
    parseSwitch x hook g t = parseHeadersCase x hook
      { g with parser := { g.parser with messageParseState := .headers } } t := by
  unfold parseSwitch; rw [h]

theorem parseSwitch_headers [Memory] {g : Progress} (h : g.parser.messageParseState = .headers) (t : Nat) :
    parseSwitch x hook g t = parseHeadersCase x hook g t := by
  unfold parseSwitch; rw [h]

theorem parseSwitch_opening (x : Externals) (hook : Hook) {p : HttpParser} (m : HttpRequest)
    (ec : Option ErrorValue) (buf : Bytes)
    (hst : p.messageParseState = .start ∨ p.messageParseState = .headers) (t : Nat) :
    parseSwitch x hook { parser := p, msg := m, ec := ec, unread := buf } t = parseHeadersCase x hook
      { parser := { p with messageParseState := .headers }, msg := m, ec := ec, unread := buf } t := by
  rcases hst with h | h
  · exact parseSwitch_start h t
  · rw [parseSwitch_headers h t, ← h]

theorem parseSwitch_footers {g : Progress} (h : g.parser.messageParseState = .footers) (t : Nat) :
    parseSwitch x hook g t = parseHeadersCase x hook g t := by
  unfold parseSwitch; rw [h]

theorem parseSwitch_chunks {g : Progress} (h : g.parser.messageParseState = .chunks) (t : Nat) :
    parseSwitch x hook g t = parseChunksCase g t := by
  unfold parseSwitch; rw [h]

theorem parseSwitch_content [Memory] {g : Progress} (h : g.parser.messageParseState = .content) (t : Nat) :
    parseSwitch x hook g t = match (consumeContent g).2 with
      | none => ((consumeContent g).1, t, .ok .false)
      | some rc => ((consumeContent g).1, t + (consumeContent g).1.parser.bytesLastRead, .ok rc) := by
  cases hc : (consumeContent g).2 <;> simp only [parseSwitch, h, hc]

theorem parseSwitch_contentNoLength {g : Progress}
    (h : g.parser.messageParseState = .contentNoLength) (t : Nat) :
    parseSwitch x hook g t = match (consumeContentAsNextChunk g).2 with
      | none => ((consumeContentAsNextChunk g).1, t, .ok .false)
      | some () => ((consumeContentAsNextChunk g).1,
          t + (consumeContentAsNextChunk g).1.parser.bytesLastRead, .ok .indeterminate) := by
  cases hc : (consumeContentAsNextChunk g).2 <;> simp only [parseSwitch, h, hc]

theorem parseSwitch_end {g : Progress} (h : g.parser.messageParseState = .end) (t : Nat) :
    parseSwitch x hook g t = (g, t, .ok .true) := by
  unfold parseSwitch; rw [h]

/-- What one pass of the loop in `parse` keeps, and that it makes progress. -/
structure PassSpec (hook : Hook) (g g' : Progress) (rc : Except Exn Tribool) : Prop where
  /-- The flags about missing packets stay. -/
  missing_eq : missing g'.msg = missing g.msg
  /-- No handler that throws comes in. -/
  calm : CalmHook hook → Calm g.parser.toChunkFields → Calm g'.parser.toChunkFields
  /-- A pass that wants another one with bytes at hand has moved on to a later phase. -/
  order : rc = .ok .indeterminate → g'.unread ≠ [] →
    passes g'.parser.messageParseState < passes g.parser.messageParseState

/-- `finish_header_parsing` with enough memory. -/
theorem finishHeaderParsing_eq (x : Externals) (hook : Hook) (g : Progress) : finishHeaderParsing x hook g =
    match decideFraming x (beforeFraming x g.parser g.msg).1 (beforeFraming x g.parser g.msg).2 with
    | none => ({ g with
        parser := (beforeFraming x g.parser g.msg).1
        msg := (beforeFraming x g.parser g.msg).2
        ec := some .invalidContentLength }, .ok .false)
    | some (p, m, rc) => match hook m g.ec rc with
      | .error e => ({ g with parser := p, msg := m }, .error e)
      | .ok r => ({ g with
          parser := { p with payloadHandler := r.payloadHandler <|> p.payloadHandler }
          msg := m }, .ok r.rc) := rfl

theorem finishHeaderParsing_spec (x : Externals) (hook : Hook) {g : Progress} (hst : g.parser.messageParseState = .headers) :
    PassSpec hook g (finishHeaderParsing x hook g).1 (finishHeaderParsing x hook g).2 := by
  rw [finishHeaderParsing_eq]
  have hb := beforeFraming_missing (x := x) g.parser g.msg
  split
  · exact ⟨hb, fun _ hc => hc, fun h => by cases h⟩
  · rename_i p m rc hd
    obtain ⟨hstate, hchunk, hmiss⟩ := decideFraming_cases hd
    have hcalm : Calm g.parser.toChunkFields → Calm p.toChunkFields := by
      intro hc
      rw [hchunk]
      exact hc
    split
    · exact ⟨hmiss.trans hb, fun _ => hcalm, fun h => by cases h⟩
    · rename_i r hr
      refine ⟨hmiss.trans hb, fun hh hc => calm_orElse (hcalm hc) (hh m g.ec rc r hr), ?_⟩
      intro _ _
      show passes p.messageParseState < passes g.parser.messageParseState
      rw [hst]
      rcases hstate with h | h | h <;> rw [h] <;> decide

theorem parseHeaders_keeps (g : Progress) :
    missing (parseHeaders x g).1.msg = missing g.msg ∧
      (parseHeaders x g).1.parser.toChunkFields = g.parser.toChunkFields ∧
      (parseHeaders x g).1.parser.messageParseState = g.parser.messageParseState ∧
      ((parseHeaders x g).2 = .indeterminate → (parseHeaders x g).1.unread = []) := by
  unfold parseHeaders
  dsimp only
  split
  · rename_i h
    exact ⟨(headerScanner_more_frame h).missing_eq, rfl, rfl, fun _ => rfl⟩
  · rename_i h
    exact ⟨(headerScanner_stop_frame h).missing_eq, rfl, rfl, fun h => by cases h⟩
  · rename_i h
    exact ⟨(headerScanner_stop_frame h).missing_eq, rfl, rfl, fun h => by cases h⟩

theorem parseHeadersCase_spec (x : Externals) (hook : Hook) (g : Progress) (t : Nat) :
    PassSpec hook g (parseHeadersCase x hook g t).1 (parseHeadersCase x hook g t).2.2 := by
  obtain ⟨hm, hc, hs, hu⟩ := parseHeaders_keeps (x := x) g
  unfold parseHeadersCase
  dsimp only
  split
  · rename_i h
    have hf := finishHeaderParsing_spec x hook h.2
    refine ⟨hf.missing_eq.trans hm, fun hh hg => hf.calm hh (by rw [hc]; exact hg), ?_⟩
    intro h1 h2
    rw [← hs]
    exact hf.order h1 h2
  · refine ⟨hm, fun _ hg => by rw [hc]; exact hg, ?_⟩
    intro h1 h2
    injection h1 with h1
    exact absurd (hu h1) h2

theorem parseChunks_keeps (g : Progress) :
    missing (parseChunks g).1.msg = missing g.msg ∧
      ChunkFrame g.parser.toChunkFields (parseChunks g).1.parser.toChunkFields ∧
      ((parseChunks g).2 = some .indeterminate → (parseChunks g).1.unread = []) ∧
      ((parseChunks g).2 = some .indeterminate →
        (parseChunks g).1.parser.messageParseState = g.parser.messageParseState) := by
  unfold parseChunks
  dsimp only
  split
  · rename_i h
    exact ⟨rfl, chunkScanner_more_frame h, fun _ => rfl, fun _ => rfl⟩
  all_goals
    rename_i h
    exact ⟨rfl, chunkScanner_stop_frame h, fun h => (by cases h), fun h => (by cases h)⟩

theorem parseChunksCase_spec {g : Progress} (hst : g.parser.messageParseState = .chunks) (t : Nat) :
    PassSpec hook g (parseChunksCase g t).1 (parseChunksCase g t).2.2 := by
  obtain ⟨hm, hc, hu, _⟩ := parseChunks_keeps g
  unfold parseChunksCase
  dsimp only
  split
  · exact ⟨hm, fun _ hg => hc.calm hg, fun h => by cases h⟩
  · rename_i rc hrc
    split
    · refine ⟨hm, fun _ hg => hc.calm hg, ?_⟩
      intro h1 _
      split at h1
      · rename_i hf
        show passes (parseChunks g).1.parser.messageParseState < _
        rw [hf, hst]
        decide
      · cases h1
    · refine ⟨hm, fun _ hg => hc.calm hg, ?_⟩
      intro h1 h2
      injection h1 with h1
      exact absurd (hu (by rw [hrc, h1])) h2

/-- Storing content writes the content buffer. -/
theorem storeContent_frame (p : HttpParser) (m : HttpRequest) (data : Bytes) :
    storeContent p m data = { m with contentBuf := (storeContent p m data).contentBuf } := by
  unfold storeContent
  dsimp only
  split
  · split <;> rfl
  · rfl

theorem consumeContent_keeps (g : Progress) :
    missing (consumeContent g).1.msg = missing g.msg ∧
      ChunkFrame g.parser.toChunkFields (consumeContent g).1.parser.toChunkFields ∧
      ((consumeContent g).2 = some .indeterminate → (consumeContent g).1.unread = []) := by
  unfold consumeContent
  dsimp only
  split
  · exact ⟨rfl, ⟨rfl, rfl⟩, fun h => by cases h⟩
  · have hdrop : (some (if g.unread.length ≥ g.parser.bytesContentRemaining then Tribool.true
        else .indeterminate) = some .indeterminate) →
        g.unread.drop (min g.unread.length g.parser.bytesContentRemaining) = [] := by
      intro h
      split at h
      · cases h
      · rename_i hlt
        rw [List.drop_eq_nil_iff]
        omega
    split
    · split
      · exact ⟨rfl, ⟨rfl, rfl⟩, fun h => by cases h⟩
      · rename_i hq
        exact ⟨rfl, deliver_frame hq, hdrop⟩
    · exact ⟨by rw [storeContent_frame]; rfl, ⟨rfl, rfl⟩, hdrop⟩

theorem consumeContentAsNextChunk_keeps (g : Progress) :
    missing (consumeContentAsNextChunk g).1.msg = missing g.msg ∧
      ChunkFrame g.parser.toChunkFields (consumeContentAsNextChunk g).1.parser.toChunkFields ∧
      ((consumeContentAsNextChunk g).2 = some () → (consumeContentAsNextChunk g).1.unread = []) := by
  unfold consumeContentAsNextChunk
  dsimp only
  split
  · rename_i h
    exact ⟨rfl, ⟨rfl, rfl⟩, fun _ => List.eq_nil_of_length_eq_zero h⟩
  · split
    · split
      · exact ⟨rfl, ⟨rfl, rfl⟩, fun h => by cases h⟩
      · rename_i hq
        exact ⟨rfl, deliver_frame hq, fun _ => rfl⟩
    · exact ⟨rfl, ⟨rfl, rfl⟩, fun _ => rfl⟩

theorem consumeContentAsNextChunk_state (g : Progress) :
    (consumeContentAsNextChunk g).1.parser.messageParseState = g.parser.messageParseState := by
  unfold consumeContentAsNextChunk
  dsimp only
  split
  · rfl
  · split
    · split
      · rfl
      · rfl
    · rfl

theorem parseSwitch_spec (x : Externals) (hook : Hook) (g : Progress) (t : Nat) :
    PassSpec hook g (parseSwitch x hook g t).1 (parseSwitch x hook g t).2.2 := by
  unfold parseSwitch
  cases hst : g.parser.messageParseState <;> dsimp only
  case start =>
    have h := parseHeadersCase_spec x hook
      { g with parser := { g.parser with messageParseState := .headers } } t
    refine ⟨h.missing_eq, h.calm, ?_⟩
    rw [hst]
    exact h.order
  case headers => exact parseHeadersCase_spec x hook g t
  case footers => exact parseHeadersCase_spec x hook g t
  case chunks => exact parseChunksCase_spec hst t
  case content =>
    obtain ⟨hm, hc, hu⟩ := consumeContent_keeps g
    split
    · exact ⟨hm, fun _ hg => hc.calm hg, fun h => by cases h⟩
    · rename_i rc hrc
      refine ⟨hm, fun _ hg => hc.calm hg, ?_⟩
      intro h1 h2
      injection h1 with h1
      exact absurd (hu (by rw [hrc, h1])) h2
  case contentNoLength =>
    obtain ⟨hm, hc, hu⟩ := consumeContentAsNextChunk_keeps g
    split
    · exact ⟨hm, fun _ hg => hc.calm hg, fun h => by cases h⟩
    · rename_i hrc
      exact ⟨hm, fun _ hg => hc.calm hg, fun _ h2 => absurd (hu hrc) h2⟩
  case «end» => exact ⟨rfl, fun _ hg => hg, fun h => by cases h⟩

theorem parseLoop_done [Memory] {g g' : Progress} {t t' : Nat} {rc : Except Exn Tribool}
    (h : parseSwitch x hook g t = (g', t', rc)) (hrc : rc ≠ .ok .indeterminate) (n : Nat) :
    parseLoop x hook (n + 1) g t = (g', t', rc) := by
  rw [parseLoop, h]
  rcases rc with e | b
  · rfl
  cases b with
  | true => rfl
  | false => rfl
  | indeterminate => exact absurd rfl hrc

theorem parseLoop_next [Memory] {g g' : Progress} {t t' : Nat}
    (h : parseSwitch x hook g t = (g', t', .ok .indeterminate)) (hne : g'.unread ≠ []) (n : Nat) :
    parseLoop x hook (n + 1) g t = parseLoop x hook n g' t' := by
  rw [parseLoop, h]
  exact if_neg hne

theorem parseLoop_waiting [Memory] {g g' : Progress} {t t' : Nat}
    (h : parseSwitch x hook g t = (g', t', .ok .indeterminate)) (hunread : g'.unread = [])
    (n : Nat) :
    parseLoop x hook (n + 1) g t = (g', t', .ok .indeterminate) := by
  rw [parseLoop, h]
  exact if_pos hunread

/-- **The loop keeps what every pass keeps**, as long as the passes ask for another one. -/
theorem parseLoop_invariant {Q : Progress → Nat → Except Exn Tribool → Prop}
    (hpass : ∀ g t, Q g t (.ok .indeterminate) →
      Q (parseSwitch x hook g t).1 (parseSwitch x hook g t).2.1 (parseSwitch x hook g t).2.2) :
    ∀ (n : Nat) (g : Progress) (t : Nat), Q g t (.ok .indeterminate) →
      Q (parseLoop x hook n g t).1 (parseLoop x hook n g t).2.1 (parseLoop x hook n g t).2.2 := by
  intro n
  induction n with
  | zero => exact fun g t h => h
  | succ n ih =>
    intro g t h
    have hnext := hpass g t h
    rw [parseLoop]
    rcases hr : parseSwitch x hook g t with ⟨g', t', rc⟩
    rw [hr] at hnext
    rcases rc with e | b
    · exact hnext
    cases b with
    | true => exact hnext
    | false => exact hnext
    | indeterminate =>
      dsimp only at hnext ⊢
      split
      · exact hnext
      · exact ih g' t' hnext

/-- **Three passes are enough**: any larger bound on the loop gives the same result. -/
theorem parseLoop_stable : ∀ (n k : Nat) (g : Progress) (t : Nat),
    passes g.parser.messageParseState ≤ n → passes g.parser.messageParseState ≤ k →
    parseLoop x hook n g t = parseLoop x hook k g t := by
  intro n
  induction n with
  | zero =>
    intro k g t h _
    have := passes_pos g.parser.messageParseState
    omega
  | succ n ih =>
    intro k g t hn hk
    obtain ⟨k, rfl⟩ : ∃ j, k = j + 1 :=
      ⟨k - 1, by have := passes_pos g.parser.messageParseState; omega⟩
    have hspec := parseSwitch_spec x hook g t
    rw [parseLoop, parseLoop]
    rcases hr : parseSwitch x hook g t with ⟨g', t', rc⟩
    rw [hr] at hspec
    cases rc with
    | error e => rfl
    | ok b =>
      cases b with
      | true => rfl
      | false => rfl
      | indeterminate =>
        dsimp only
        split
        · rfl
        · rename_i hne
          -- an indeterminate pass that leaves bytes has moved on to a later phase
          have hlt : passes g'.parser.messageParseState < passes g.parser.messageParseState :=
            hspec.order rfl hne
          exact ih k g' t' (by omega) (by omega)

end Pion.Proof
