import Pion.Proof.Pipelining

/-!
# Where the reader of a server can be

Between two buffers, the reader of a server is inside the head of a request or inside a body
that a payload handler takes. It never stores a body: if there is no payload handler, the
request is complete with its head. In particular it never reads content of unknown length.

`fed_outcome` says what becomes of a reader whatever it is fed, and whatever the payload
handlers do. The header loop alone decides between the cases.
-/

namespace Pion.Proof

open Pion Lib

variable {x : Externals} {hook : Hook} {server : HttpServer}

/-! ## Inside a body -/

/-- The parser is inside a body that a payload handler takes. -/
structure InBody (method : Bytes) (p : HttpParser) (m : HttpRequest) : Prop where
  state : p.messageParseState = .chunks ∨ p.messageParseState = .content
  handler : p.payloadHandler ≠ none
  method_eq : m.method = method
  complete : m.hasMissingPackets = false

/-- The payload handler throws when it is given what the buffer has of the body. -/
def Throws (g : Progress) : Prop :=
  match g.parser.messageParseState with
  | .chunks =>
    ∃ s rest, chunkScanner.run (g.parser.toChunkFields, g.msg.chunkCache) g.unread = .stop .threw s rest
  | .content =>
    ∃ k, g.parser.payloadHandler = some k ∧ g.parser.bytesContentRemaining ≠ 0 ∧
      k.throws g.parser.delivered (g.unread.take g.parser.bytesContentRemaining) = true
  | _ => False

/-- A pass through a part of the body: it never throws itself, and it fails without an error
code only if the payload handler throws. -/
structure BodyPass (g : Progress) (method : Bytes) (r : Progress × Nat × Except Exn Tribool) :
    Prop where
  rc : ∃ b, r.2.2 = .ok b
  handler : r.1.parser.payloadHandler ≠ none
  method_eq : r.1.msg.method = method
  fails : r.2.2 = .ok .false → r.1.ec = none → Throws g
  waits : r.2.2 = .ok .indeterminate → InBody method r.1.parser r.1.msg ∧ r.1.unread = []

theorem parseChunks_method (g : Progress) : (parseChunks g).1.msg.method = g.msg.method := by
  unfold parseChunks
  dsimp only
  split <;> rfl

/-- `parse_chunks` fails with an error code, or the payload handler throws. -/
theorem parseChunks_fails {g : Progress} (hst : g.parser.messageParseState = .chunks) :
    ((parseChunks g).2 = none → Throws g) ∧
      ((parseChunks g).2 = some .false → (parseChunks g).1.ec ≠ none) := by
  unfold Throws
  rw [hst]
  unfold parseChunks
  dsimp only
  split
  · exact ⟨(fun h => by cases h), (fun h => by cases h)⟩
  · exact ⟨(fun h => by cases h), (fun h => by cases h)⟩
  · exact ⟨(fun h => by cases h), (fun h => by cases h)⟩
  · exact ⟨(fun h => by cases h), (fun _ h => by cases h)⟩
  · rename_i s rest hrun
    exact ⟨fun _ => ⟨s, rest, hrun⟩, fun h => by cases h⟩

theorem chunks_pass {g : Progress} {method : Bytes} (h : InBody method g.parser g.msg)
    (hst : g.parser.messageParseState = .chunks) (t : Nat) :
    BodyPass g method (parseChunksCase g t) := by
  obtain ⟨hmissing, hframe, hunread, hstate⟩ := parseChunks_keeps g
  obtain ⟨hthrows, hfails⟩ := parseChunks_fails hst
  have hhandler : (parseChunks g).1.parser.payloadHandler ≠ none := by
    rw [hframe.1]
    exact h.handler
  have hmethod := (parseChunks_method g).trans h.method_eq
  cases hrc : (parseChunks g).2 with
  | none =>
    have hcase : parseChunksCase g t = ((parseChunks g).1, t, .ok .false) := by
      unfold parseChunksCase
      dsimp only
      rw [hrc]
    rw [hcase]
    exact ⟨⟨_, rfl⟩, hhandler, hmethod, fun _ _ => hthrows hrc, fun hn => by cases hn⟩
  | some rc =>
    have hcase : parseChunksCase g t =
        ((parseChunks g).1, t + (parseChunks g).1.parser.bytesLastRead, .ok rc) := by
      unfold parseChunksCase
      dsimp only
      rw [hrc]
      exact if_neg fun hn => hhandler (Option.isNone_iff_eq_none.mp hn.2)
    rw [hcase]
    refine ⟨⟨rc, rfl⟩, hhandler, hmethod, ?_, ?_⟩
    · intro hfalse hec
      cases hfalse
      exact absurd hec (hfails hrc)
    · intro hwaits
      cases hwaits
      refine ⟨⟨Or.inl ((hstate hrc).trans hst), hhandler, hmethod, ?_⟩, hunread hrc⟩
      exact (congrArg Prod.fst hmissing).trans h.complete

theorem consumeContent_frame {g : Progress} (hk : g.parser.payloadHandler ≠ none) :
    (consumeContent g).1.msg.method = g.msg.method ∧
      (consumeContent g).1.parser.messageParseState = g.parser.messageParseState ∧
      (consumeContent g).2 ≠ some .false := by
  obtain ⟨k, hk⟩ := Option.ne_none_iff_exists'.mp hk
  unfold consumeContent
  dsimp only
  split
  · exact ⟨rfl, rfl, fun h => by cases h⟩
  · rw [hk]
    dsimp only
    split
    · exact ⟨rfl, rfl, fun h => by cases h⟩
    · refine ⟨rfl, rfl, ?_⟩
      split
      · exact fun h => by cases h
      · exact fun h => by cases h

theorem consumeContent_throws {g : Progress} (hk : g.parser.payloadHandler ≠ none)
    (hst : g.parser.messageParseState = .content) : (consumeContent g).2 = none → Throws g := by
  obtain ⟨k, hk⟩ := Option.ne_none_iff_exists'.mp hk
  unfold Throws
  rw [hst]
  unfold consumeContent
  dsimp only
  split
  · exact fun h => by cases h
  · rename_i hzero
    rw [hk]
    dsimp only
    split
    · rename_i hnone
      intro _
      refine ⟨k, rfl, hzero, ?_⟩
      unfold ChunkFields.deliver at hnone
      split at hnone
      · rename_i hthrow
        rw [Nat.min_comm, ← List.take_eq_take_min] at hthrow
        exact hthrow
      · cases hnone
    · exact fun h => by cases h

theorem content_pass {g : Progress} {method : Bytes} (h : InBody method g.parser g.msg)
    (hst : g.parser.messageParseState = .content) (t : Nat) :
    BodyPass g method (parseSwitch x hook g t) := by
  obtain ⟨hmissing, hframe, hunread⟩ := consumeContent_keeps g
  have hthrows := consumeContent_throws h.handler hst
  have hhandler : (consumeContent g).1.parser.payloadHandler ≠ none := by
    rw [hframe.1]
    exact h.handler
  obtain ⟨hmethod, hstate, hrcs⟩ := consumeContent_frame h.handler
  rw [parseSwitch_content hst]
  cases hrc : (consumeContent g).2 with
  | none =>
    exact ⟨⟨_, rfl⟩, hhandler, hmethod.trans h.method_eq, fun _ _ => hthrows hrc, fun hn => by cases hn⟩
  | some rc =>
    refine ⟨⟨rc, rfl⟩, hhandler, hmethod.trans h.method_eq, ?_, ?_⟩
    · intro hfalse
      cases hfalse
      exact absurd hrc hrcs
    · intro hwaits
      cases hwaits
      refine ⟨⟨Or.inr (hstate.trans hst), hhandler, hmethod.trans h.method_eq, ?_⟩, hunread hrc⟩
      exact (congrArg Prod.fst hmissing).trans h.complete

theorem body_pass (x : Externals) (hook : Hook) {g : Progress} {method : Bytes}
    (h : InBody method g.parser g.msg) (t : Nat) :
    BodyPass g method (parseSwitch x hook g t) := by
  rcases h.state with hst | hst
  · rw [parseSwitch_chunks hst]
    exact chunks_pass h hst t
  · exact content_pass h hst t

/-- If the payload handler throws, the pass fails and there is no error code. -/
theorem throws_pass (x : Externals) (hook : Hook) {g : Progress} {method : Bytes}
    (h : InBody method g.parser g.msg)
    (hthrows : Throws g) (t : Nat) :
    (parseSwitch x hook g t).2.2 = .ok .false ∧ (parseSwitch x hook g t).1.ec = g.ec := by
  unfold Throws at hthrows
  rcases h.state with hst | hst
  · rw [hst] at hthrows
    obtain ⟨s, rest, hrun⟩ := hthrows
    rw [parseSwitch_chunks hst]
    unfold parseChunksCase parseChunks
    dsimp only
    rw [hrun]
    exact ⟨rfl, rfl⟩
  · rw [hst] at hthrows
    obtain ⟨k, hk, hzero, hthrow⟩ := hthrows
    have hdeliver : g.parser.deliver k
        (g.unread.take (min g.unread.length g.parser.bytesContentRemaining)) = none := by
      unfold ChunkFields.deliver
      rw [Nat.min_comm, ← List.take_eq_take_min, if_pos hthrow]
    have hnone : (consumeContent g).2 = none ∧ (consumeContent g).1.ec = g.ec := by
      unfold consumeContent
      simp only [if_neg hzero, hk, hdeliver, and_self]
    rw [parseSwitch_content hst, hnone.1]
    exact ⟨rfl, hnone.2⟩

/-- A request without a stored body never throws at its end. -/
theorem parseEnd_ok {g : Progress} {b : Tribool}
    (h : g.parser.payloadHandler ≠ none ∨ g.parser.parseHeadersOnly = false ∧ g.msg.content.length ≤ 1) (t : Nat) :
    (parseEnd x g t (.ok b)).rc = .ok b ∧ (parseEnd x g t (.ok b)).msg.method = g.msg.method ∧
      (parseEnd x g t (.ok b)).ec = g.ec := by
  cases b with
  | true =>
    obtain ⟨_, hec, _, hmsg, hrc⟩ := parseEnd_true (x := x) g t
    refine ⟨hrc.mpr fun hthrows => ?_, ?_, hec⟩
    · rcases h with hk | ⟨_, hshort⟩
      · exact hk hthrows.1
      · exact formThrows_short hshort hthrows.2.2
    · unfold Concluded at hmsg
      rw [hmsg]
  | false => exact ⟨rfl, rfl, rfl⟩
  | indeterminate => exact ⟨rfl, rfl, rfl⟩

/-- What `parse` makes of a buffer, or of what is left of it, inside a body. -/
structure BodyResult (g : Progress) (method : Bytes) (r : ParseResult) : Prop where
  rc : ∃ b, r.rc = .ok b
  method_eq : r.msg.method = method
  fails : r.rc = .ok .false → r.ec = none → Throws g
  waits : r.rc = .ok .indeterminate → InBody method r.parser r.msg

theorem BodyResult.complete {g : Progress} {method : Bytes} {r : ParseResult}
    (hrc : r.rc = .ok .true)
    (hmethod : r.msg.method = method) : BodyResult g method r := by
  refine ⟨⟨_, hrc⟩, hmethod, ?_, ?_⟩
  · intro hfalse
    rw [hrc] at hfalse
    cases hfalse
  · intro hwaits
    rw [hrc] at hwaits
    cases hwaits

theorem parseLoop_body {g : Progress} {method : Bytes} (h : InBody method g.parser g.msg)
    (n t : Nat) :
    parseLoop x hook (n + 1) g t = parseSwitch x hook g t := by
  have hpass := body_pass x hook h t
  rcases hr : parseSwitch x hook g t with ⟨g', t', rc⟩
  rw [hr] at hpass
  by_cases hrc : rc = .ok .indeterminate
  · subst hrc
    rw [parseLoop, hr]
    exact if_pos (hpass.waits rfl).2
  · exact parseLoop_done hr hrc n

theorem parseEnd_body (x : Externals) (hook : Hook) {g : Progress} {method : Bytes}
    (h : InBody method g.parser g.msg) (n t : Nat) :
    let r := parseLoop x hook (n + 1) g t
    BodyResult g method (parseEnd x r.1 r.2.1 r.2.2) := by
  have hpass := body_pass x hook h t
  rw [parseLoop_body h]
  dsimp only
  obtain ⟨b, hb⟩ := hpass.rc
  obtain ⟨hrc, hmethod, hec⟩ :=
    parseEnd_ok (x := x) (b := b) (Or.inl hpass.handler) (parseSwitch x hook g t).2.1
  rw [hb]
  refine ⟨⟨b, hrc⟩, hmethod.trans hpass.method_eq, ?_, ?_⟩
  · intro hfalse hnone
    rw [hrc] at hfalse
    rw [hec] at hnone
    exact hpass.fails (hb.trans hfalse) hnone
  · intro hwaits
    rw [hrc] at hwaits
    obtain ⟨hin, _⟩ := hpass.waits (hb.trans hwaits)
    cases hwaits
    exact ⟨hin.state, hin.handler, hin.method_eq, hin.complete⟩

theorem parseEnd_throws (x : Externals) (hook : Hook) {g : Progress} {method : Bytes}
    (h : InBody method g.parser g.msg) (hthrows : Throws g) (n t : Nat) :
    let r := parseLoop x hook (n + 1) g t
    (parseEnd x r.1 r.2.1 r.2.2).rc = .ok .false ∧ (parseEnd x r.1 r.2.1 r.2.2).ec = g.ec := by
  obtain ⟨hrc, hec⟩ := throws_pass x hook h hthrows t
  rw [parseLoop_body h]
  dsimp only
  rw [hrc]
  exact ⟨rfl, hec⟩

/-- **A buffer inside a body.** -/
theorem parse_body (x : Externals) (hook : Hook) {p : HttpParser} {m : HttpRequest} {method : Bytes}
    (h : InBody method p m) (buf : Bytes) :
    BodyResult (opened p m none buf) method (parse x hook p m none buf) := by
  have hmsg : noteMissingPackets m = m := if_neg (by simp [h.complete])
  refine parseEnd_body x hook (g := opened p m none buf) ?_ 2 0
  show InBody method p (noteMissingPackets m)
  rw [hmsg]
  exact h

/-! ## Inside the head -/

/-- The parser of a new reader is inside the head of a request, of which it has read `bytes`. -/
structure InHead (x : Externals) (i j : Nat) (bytes : Bytes) (p : HttpParser) (m : HttpRequest) :
    Prop where
  state : p.messageParseState = .start ∨ p.messageParseState = .headers
  run : (headerScanner x).run ({}, HttpRequest.fresh) bytes = .more (p.toHeaderFields, m)
  chunk : p.toChunkFields = (HttpRequestReader.new i j).parser.toChunkFields
  headersOnly : p.parseHeadersOnly = false

theorem inHead_new (x : Externals) (i j : Nat) :
    InHead x i j [] (HttpRequestReader.new i j).parser HttpRequest.fresh :=
  ⟨Or.inl rfl, rfl, rfl, rfl⟩

/-- What the loop of `parse` looks like behind a head that the hook has let through. -/
structure BehindHead (x : Externals) (p : HttpParser) (s : HeaderState) (f : Framing)
    (k : Option PayloadHandler)
    (tail : Bytes) (g : Progress) : Prop where
  state : g.parser.messageParseState = f.state
  remaining : g.parser.bytesContentRemaining = f.remaining
  chunk : g.parser.toChunkFields = { p.toChunkFields with payloadHandler := k }
  headersOnly : g.parser.parseHeadersOnly = false
  msg : g.msg = f.request p.maxContentLength (headRequest x s)
  ec : g.ec = none
  unread : g.unread = tail

/-- A content length that cannot be read ends the parse. -/
theorem finishHeaderParsing_unframed {g : Progress}
    (hd : decideFraming x (beforeFraming x g.parser g.msg).1 (beforeFraming x g.parser g.msg).2 = none) :
    finishHeaderParsing x hook g = ({ g with
      parser := (beforeFraming x g.parser g.msg).1
      msg := (beforeFraming x g.parser g.msg).2
      ec := some .invalidContentLength }, .ok .false) := by
  rw [finishHeaderParsing_eq]
  simp only [hd]

/-- The pass that comes to the end of the head. -/
theorem head_pass (x : Externals) (hook : Hook) {p : HttpParser} {m : HttpRequest}
    {buf tail : Bytes}
    {s : HeaderState}
    (hst : p.messageParseState = .start ∨ p.messageParseState = .headers)
    (honly : p.parseHeadersOnly = false)
    (hk : p.payloadHandler = none)
    (hrun : (headerScanner x).run (p.toHeaderFields, m) buf = .stop none s tail) (t : Nat) :
    let pass := parseSwitch x hook { parser := p, msg := m, ec := none, unread := buf } t
    match framing x (headRequest x s) with
    | none => ∃ g t', pass = (g, t', .ok .false) ∧ g.ec ≠ none
    | some f => match hook (f.request p.maxContentLength (headRequest x s)) none f.rc with
      | .error e => ∃ g t', pass = (g, t', .error e)
      | .ok r => ∃ g t', pass = (g, t', .ok r.rc) ∧ BehindHead x p s f r.payloadHandler tail g := by
  intro pass
  unfold pass
  rw [parseSwitch_opening x hook m none buf hst]
  have hdone := parseHeaders_done
    (g := { parser := { p with messageParseState := .headers }, msg := m, ec := none, unread := buf }) hrun
  rw [parseHeadersCase_headers hdone rfl]
  have hsplit := decideFraming_eq (x := x) (p := (beforeFraming x (HttpParser.account
    { p with messageParseState := .headers, toHeaderFields := s.1 } (buf.length - tail.length)) s.2).1) honly rfl
    (headRequest x s)
  cases hf : framing x (headRequest x s) with
  | none =>
    rw [hf, Option.map_none] at hsplit
    rw [finishHeaderParsing_unframed hsplit]
    exact ⟨_, _, rfl, fun h => by cases h⟩
  | some f =>
    rw [hf, Option.map_some] at hsplit
    rw [finishHeaderParsing_hook hsplit rfl]
    dsimp only [beforeFraming, HttpParser.account]
    cases hook (f.request p.maxContentLength (headRequest x s)) none f.rc with
    | error e => exact ⟨_, _, rfl⟩
    | ok r =>
      obtain ⟨rc, k⟩ := r
      exact ⟨_, _, rfl, rfl, rfl, by rw [hk]; cases k <;> rfl, honly, rfl, rfl, rfl⟩

theorem request_method (max : Nat) (m : HttpRequest) (f : Framing) :
    (f.request max m).method = m.method := by
  rcases f with _ | n | _
  · rfl
  · cases n <;> rfl
  · rfl

theorem request_complete (max : Nat) (m : HttpRequest) (f : Framing) :
    (f.request max m).hasMissingPackets = m.hasMissingPackets := by
  rcases f with _ | n | _
  · rfl
  · cases n <;> rfl
  · rfl

theorem framing_end {f : Framing} (h : f.rc = .true) : f.state = .end := by
  rcases f with _ | n | _
  · rfl
  · cases n with
    | zero => rfl
    | succ n => cases h
  · cases h

theorem framing_body {f : Framing} (h : f.rc ≠ .true) :
    f.rc = .indeterminate ∧ (f.state = .chunks ∨ f.state = .content) := by
  rcases f with _ | n | _
  · exact absurd rfl h
  · cases n with
    | zero => exact absurd rfl h
    | succ n => exact ⟨rfl, Or.inr rfl⟩
  · exact ⟨rfl, Or.inl rfl⟩

theorem InHead.complete {i j : Nat} {p : HttpParser} {m : HttpRequest} {bytes buf tail : Bytes}
    {s : HeaderState}
    {r : Option ErrorValue} (h : InHead x i j bytes p m)
    (hrun : (headerScanner x).run (p.toHeaderFields, m) buf = .stop r s tail) :
    (headRequest x s).hasMissingPackets = false := by
  have hm := congrArg Prod.fst (headerScanner_more_frame h.run).missing_eq
  have hs := congrArg Prod.fst (headerScanner_stop_frame hrun).missing_eq
  have hr := congrArg Prod.fst
    (beforeFraming_missing (x := x) { HttpParser.fresh 0 0 0 with toHeaderFields := s.1 } s.2)
  exact hr.trans (hs.trans hm)

theorem InHead.opened_eq {i j : Nat} {p : HttpParser} {m : HttpRequest} {bytes : Bytes}
    (h : InHead x i j bytes p m)
    (buf : Bytes) : opened p m none buf = { parser := p, msg := m, ec := none, unread := buf } := by
  have hmissing : m.hasMissingPackets = false :=
    congrArg Prod.fst (headerScanner_more_frame h.run).missing_eq
  unfold opened
  rw [show noteMissingPackets m = m from if_neg (by simp [hmissing])]

/-- What `parse` makes of a buffer that completes the head of a request, if the server knows the
method. Without a payload handler, the request is complete. -/
theorem parse_head {i j : Nat} {p : HttpParser} {m : HttpRequest} {bytes buf tail : Bytes}
    {s : HeaderState}
    (h : InHead x i j bytes p m)
    (hrun : (headerScanner x).run (p.toHeaderFields, m) buf = .stop none s tail) {f : Framing}
    (hf : framing x (headRequest x s) = some f) {found : Option PayloadHandlerCreator}
    (hfound : server.findPayload (headRequest x s) = .ok found) :
    let r := parse x server.handleRequestAfterHeadersParsed p m none buf
    ∃ g, BehindHead x p s f (found.map (· (f.request 1 (headRequest x s)))) tail g ∧
      BodyResult g (headRequest x s).method r ∧
      (found = none → r.rc = .ok .true) ∧
      (tail = [] → r.rc ≠ .ok .false) ∧
      (found ≠ none → tail ≠ [] → Throws g → r.rc = .ok .false ∧ r.ec = none) := by
  have hk : p.payloadHandler = none := by rw [h.chunk]; rfl
  have hmax : p.maxContentLength = 1 := by rw [h.chunk]; rfl
  have hmissing := h.complete hrun
  have hpass := head_pass x server.handleRequestAfterHeadersParsed h.state h.headersOnly hk hrun 0
  rw [hf] at hpass
  dsimp only at hpass
  rw [hook_decided server _ (framing_rc_ne f), findPayload_request, hfound, hmax] at hpass
  obtain ⟨g, t, hswitch, hbehind⟩ := hpass
  rw [← h.opened_eq] at hswitch
  have hmsg : g.msg = f.request 1 (headRequest x s) := by rw [hbehind.msg, hmax]
  have hmethod : g.msg.method = (headRequest x s).method := by rw [hmsg, request_method]
  cases found with
  | none =>
    -- the first pass is the last one
    have hcontent : g.msg.content.length ≤ 1 := by
      rw [hmsg, request_content]
      split <;> decide
    obtain ⟨hrc, hmethod', _⟩ :=
      parseEnd_ok (x := x) (b := .true) (Or.inr ⟨hbehind.headersOnly, hcontent⟩) t
    have hparse : parse x server.handleRequestAfterHeadersParsed p m none buf = parseEnd x g t (.ok .true) :=
      parse_of_loop (parseLoop_done hswitch (fun hn => by cases hn) 2)
    rw [hparse]
    refine ⟨g, hbehind, .complete hrc (hmethod'.trans hmethod), fun _ => hrc, fun _ hn => ?_,
      fun hn => absurd rfl hn⟩
    rw [hrc] at hn
    cases hn
  | some creator =>
    have hhandler : g.parser.payloadHandler ≠ none := by
      rw [hbehind.chunk]
      exact fun hn => by cases hn
    refine ⟨g, hbehind, ?_⟩
    by_cases hbody : f.rc = .true
    · have hparse : parse x server.handleRequestAfterHeadersParsed p m none buf = parseEnd x g t (.ok f.rc) :=
        parse_of_loop (parseLoop_done hswitch (fun hn => by cases hbody ▸ hn) 2)
      obtain ⟨hrc, hmethod', _⟩ := parseEnd_ok (x := x) (b := f.rc) (Or.inl hhandler) t
      rw [hbody] at hparse hrc hmethod'
      rw [hparse]
      refine ⟨.complete hrc (hmethod'.trans hmethod), (fun hn => by cases hn), fun _ hn => ?_,
        fun _ _ hn => ?_⟩
      · rw [hrc] at hn
        cases hn
      · unfold Throws at hn
        rw [hbehind.state, framing_end hbody] at hn
        exact hn.elim
    · -- the body follows: it begins in the same buffer, or the next read brings it
      obtain ⟨hrc, hstate⟩ := framing_body hbody
      have hin : InBody (headRequest x s).method g.parser g.msg := by
        refine ⟨by rw [hbehind.state]; exact hstate, hhandler, hmethod, ?_⟩
        rw [hmsg, request_complete]
        exact hmissing
      change parseSwitch _ _ _ _ = (g, t, .ok f.rc) at hswitch
      rw [hrc] at hswitch
      by_cases htail : tail = []
      · have hparse : parse x server.handleRequestAfterHeadersParsed p m none buf =
            parseEnd x g t (.ok .indeterminate) := by
          refine parse_of_loop ?_
          rw [parseLoop, hswitch]
          exact if_pos (hbehind.unread.trans htail)
        rw [hparse]
        refine ⟨⟨⟨_, rfl⟩, hmethod, (fun hn => by cases hn), fun _ => ?_⟩, (fun hn => by cases hn),
          (fun _ hn => by cases hn), fun _ hn => absurd htail hn⟩
        exact ⟨hin.state, hin.handler, hin.method_eq, hin.complete⟩
      · have hloop := parseLoop_next hswitch (by rw [hbehind.unread]; exact htail) 2
        have hbodies := parseEnd_body x server.handleRequestAfterHeadersParsed hin 1 t
        rw [← hloop] at hbodies
        refine ⟨hbodies, (fun hn => by cases hn), fun hn => absurd hn htail, fun _ _ hthrows => ?_⟩
        have hfails := parseEnd_throws x server.handleRequestAfterHeadersParsed hin hthrows 1 t
        rw [← hloop, hbehind.ec] at hfails
        exact hfails

/-! ## What becomes of a reader -/

theorem chooseMapByMethod_unsupported {α : Type} {method : Bytes} (h : method ∉ supportedMethods)
    (maps : MethodMaps α) : chooseMapByMethod method maps = .error (.invalidHttpMethod method) := by
  unfold supportedMethods at h
  simp only [List.mem_cons, List.not_mem_nil, or_false, not_or] at h
  obtain ⟨hget, hhead, hpost, hput, hdelete, hoptions⟩ := h
  unfold chooseMapByMethod
  rw [if_neg fun hn => hn.elim (fun hn => hget hn.symm) (fun hn => hhead hn.symm),
    if_neg fun hn => hpost hn.symm,
    if_neg fun hn => hput hn.symm, if_neg fun hn => hdelete hn.symm, if_neg fun hn => hoptions hn.symm]

theorem findPayload_unsupported (server : HttpServer) {m : HttpRequest}
    (h : m.method ∉ supportedMethods) :
    server.findPayload m = .error (.invalidHttpMethod m.method) := by
  unfold HttpServer.findPayload
  rw [chooseMapByMethod_unsupported h]

theorem findPayload_supported (server : HttpServer) {m : HttpRequest}
    (h : m.method ∈ supportedMethods) :
    ∃ found, server.findPayload m = .ok found := by
  obtain ⟨map, hmap⟩ := chooseMapByMethod_supported h server.payloads
  unfold HttpServer.findPayload
  rw [hmap]
  exact ⟨_, rfl⟩

/-- What the parser of a new reader of a server makes of some bytes: it is inside the head, the
head is bad, the head does not say how long the body is, the method is unknown, or it is known. -/
inductive Fate (x : Externals) (i j : Nat) (bytes : Bytes) (r : ParseResult) : Prop where
  | inHead (hrc : r.rc = .ok .indeterminate) (h : InHead x i j bytes r.parser r.msg)
  | badHead {e : ErrorValue} {s : HeaderState} {tail : Bytes}
      (hrun : (headerScanner x).run ({}, HttpRequest.fresh) bytes = .stop (some e) s tail)
      (hrc : r.rc = .ok .false) (hec : r.ec ≠ none)
  | unframed {s : HeaderState} {tail : Bytes}
      (hrun : (headerScanner x).run ({}, HttpRequest.fresh) bytes = .stop none s tail)
      (hframing : framing x (headRequest x s) = none) (hrc : r.rc = .ok .false) (hec : r.ec ≠ none)
  | unknown {s : HeaderState} {tail : Bytes}
      (hrun : (headerScanner x).run ({}, HttpRequest.fresh) bytes = .stop none s tail)
      (hframing : framing x (headRequest x s) ≠ none) (hmethod : (headRequest x s).method ∉ supportedMethods)
      (hrc : r.rc = .error (.invalidHttpMethod (headRequest x s).method))
  | known {s : HeaderState} {tail : Bytes} {b : Tribool}
      (hrun : (headerScanner x).run ({}, HttpRequest.fresh) bytes = .stop none s tail)
      (hframing : framing x (headRequest x s) ≠ none) (hmethod : (headRequest x s).method ∈ supportedMethods)
      (hmsg : r.msg.method = (headRequest x s).method) (hrc : r.rc = .ok b)
      (hwaits : b = .indeterminate → InBody (headRequest x s).method r.parser r.msg)

/-- A buffer for a reader inside the head. -/
theorem InHead.fate {i j : Nat} {p : HttpParser} {m : HttpRequest} {bytes : Bytes}
    (h : InHead x i j bytes p m)
    (server : HttpServer) (buf : Bytes) :
    Fate x i j (bytes ++ buf) (parse x server.handleRequestAfterHeadersParsed p m none buf) := by
  have hbytes : (headerScanner x).run ({}, HttpRequest.fresh) (bytes ++ buf) =
      (headerScanner x).run (p.toHeaderFields, m) buf := by
    rw [headerScanner_append, h.run]
    rfl
  have hopen := parseSwitch_opening x server.handleRequestAfterHeadersParsed m none buf h.state 0
  rw [← h.opened_eq] at hopen
  cases hrun : (headerScanner x).run (p.toHeaderFields, m) buf with
  | more s =>
    have hparse : parse x server.handleRequestAfterHeadersParsed p m none buf = _ :=
      parse_of_loop (parseLoop_waiting (hopen.trans (parseHeadersCase_more hrun 0)) rfl 2)
    rw [hparse]
    exact .inHead rfl ⟨Or.inr rfl, hbytes.trans hrun, h.chunk, h.headersOnly⟩
  | stop r s tail =>
    cases r with
    | some e =>
      have hparse : parse x server.handleRequestAfterHeadersParsed p m none buf = _ :=
        parse_of_loop (parseLoop_done (hopen.trans (parseHeadersCase_error hrun 0)) (fun hn => by cases hn) 2)
      rw [hparse]
      exact .badHead (hbytes.trans hrun) rfl (fun hn => by cases hn)
    | none =>
      have hk : p.payloadHandler = none := by rw [h.chunk]; rfl
      have hpass := head_pass x server.handleRequestAfterHeadersParsed h.state h.headersOnly hk hrun 0
      rw [← h.opened_eq] at hpass
      cases hf : framing x (headRequest x s) with
      | none =>
        rw [hf] at hpass
        obtain ⟨g, t, hswitch, hec⟩ := hpass
        rw [parse_of_loop (parseLoop_done hswitch (fun hn => by cases hn) 2)]
        exact .unframed (hbytes.trans hrun) hf rfl hec
      | some f =>
        have hframing : framing x (headRequest x s) ≠ none := by
          rw [hf]
          exact fun hn => by cases hn
        by_cases hmethod : (headRequest x s).method ∈ supportedMethods
        · obtain ⟨found, hfound⟩ := findPayload_supported server hmethod
          obtain ⟨g, _, hbody, _⟩ := parse_head h hrun hf hfound
          obtain ⟨b, hb⟩ := hbody.rc
          exact .known (hbytes.trans hrun) hframing hmethod hbody.method_eq hb fun hn => hbody.waits
            (hn ▸ hb)
        · rw [hf] at hpass
          dsimp only at hpass
          rw [hook_decided server _ (framing_rc_ne f), findPayload_request,
            findPayload_unsupported server hmethod]
            at hpass
          obtain ⟨g, t, hswitch⟩ := hpass
          rw [parse_of_loop (parseLoop_done hswitch (fun hn => by cases hn) 2)]
          exact .unknown (hbytes.trans hrun) hframing hmethod rfl

/-- A reader that is fed after it has its result keeps it. -/
theorem Fate.later {i j : Nat} {bytes : Bytes} {r : ParseResult} (h : Fate x i j bytes r)
    (hrc : r.rc ≠ .ok .indeterminate) (more unread : Bytes) :
    Fate x i j (bytes ++ more) { r with unread := unread } := by
  have hrun : ∀ {e : Option ErrorValue} {s : HeaderState} {tail : Bytes},
      (headerScanner x).run ({}, HttpRequest.fresh) bytes = .stop e s tail →
      (headerScanner x).run ({}, HttpRequest.fresh) (bytes ++ more) = .stop e s (tail ++ more) := by
    intro e s tail h
    rw [headerScanner_append, h]
    rfl
  cases h with
  | inHead h _ => exact absurd h hrc
  | badHead h hrc hec => exact .badHead (hrun h) hrc hec
  | unframed h hframing hrc hec => exact .unframed (hrun h) hframing hrc hec
  | unknown h hframing hmethod hrc => exact .unknown (hrun h) hframing hmethod hrc
  | known h hframing hmethod hmsg hb hwaits => exact .known (hrun h) hframing hmethod hmsg hb hwaits

theorem feed_snoc_done : ∀ (bufs : List Bytes) (r : ParseResult) (b : Bytes),
    (feed x hook r bufs).rc ≠ .ok .indeterminate →
    feed x hook r (bufs ++ [b]) =
      { feed x hook r bufs with unread := (feed x hook r bufs).unread ++ b } := by
  intro bufs
  induction bufs with
  | nil =>
    intro r b h
    have hstop : feed x hook r [b] = { r with unread := r.unread ++ [b].flatten } := if_neg h
    rw [List.nil_append, hstop, List.flatten_singleton]
    rfl
  | cons c cs ih =>
    intro r b h
    rw [List.cons_append]
    rw [feed] at h ⊢
    by_cases hr : r.rc = .ok .indeterminate
    · rw [if_pos hr] at h ⊢
      rw [ih _ b h, feed, if_pos hr]
    · rw [if_neg hr, feed, if_neg hr]
      simp only [List.flatten_cons, List.flatten_append, List.flatten_nil, List.append_nil,
        List.append_assoc]

/-- **What becomes of a reader, whatever it is fed.** -/
theorem fed_fate (x : Externals) (server : HttpServer) (i j : Nat) (bufs : List Bytes) :
    Fate x i j bufs.flatten (fed x server i j bufs) := by
  induction bufs using List.reverseRecOn with
  | nil => exact .inHead rfl (inHead_new x i j)
  | append_singleton front buf ih =>
    rw [List.flatten_append, List.flatten_singleton]
    by_cases hwaits : (fed x server i j front).rc = .ok .indeterminate
    · have hfed : FedBy x server { HttpRequestReader.new i j with
          parser := (fed x server i j front).parser
          request := (fed x server i j front).msg } i j front := ⟨hwaits, rfl, rfl⟩
      rw [← hfed.parse_eq buf]
      cases ih with
      | inHead _ h => exact h.fate server buf
      | badHead _ hrc _ => exact absurd (hrc.symm.trans hwaits) (fun hn => by cases hn)
      | unframed _ _ hrc _ => exact absurd (hrc.symm.trans hwaits) (fun hn => by cases hn)
      | unknown _ _ _ hrc => exact absurd (hrc.symm.trans hwaits) (fun hn => by cases hn)
      | @known s tail b hrun hframing hmethod hmsg hrc hin =>
        have hb : b = .indeterminate := by
          rw [hrc] at hwaits
          injection hwaits
        have hbody := parse_body x server.handleRequestAfterHeadersParsed (hin hb) buf
        obtain ⟨b', hb'⟩ := hbody.rc
        have hmore : (headerScanner x).run ({}, HttpRequest.fresh) (front.flatten ++ buf) =
            .stop none s (tail ++ buf) := by
          rw [headerScanner_append, hrun]
          rfl
        exact .known hmore hframing hmethod hbody.method_eq hb' fun hn => hbody.waits (hn ▸ hb')
    · unfold fed at hwaits ih ⊢
      rw [feed_snoc_done front _ buf hwaits]
      exact ih.later hwaits buf _

/-! ## Payload handlers that throw -/

/-- A payload handler throws when it is given what a new reader finds of the body in `tail`. -/
def ThrowsOn (i j : Nat) (k : PayloadHandler) (tail : Bytes) : Framing → Prop
  | .none => False
  | .length n => n ≠ 0 ∧ tail ≠ [] ∧ k.throws [] (tail.take n) = true
  | .chunked => ∃ s rest, chunkScanner.run
      ({ (HttpRequestReader.new i j).parser.toChunkFields with payloadHandler := some k }, []) tail = .stop .threw s rest

/-- `bytes` begin with the head of a request that has a payload handler, and it throws when it is
given what the bytes have of the body. -/
def PayloadThrows (x : Externals) (server : HttpServer) (i j : Nat) (bytes : Bytes) : Prop :=
  ∃ s tail f creator, (headerScanner x).run ({}, HttpRequest.fresh) bytes = .stop none s tail ∧
    framing x (headRequest x s) = some f ∧ server.findPayload (headRequest x s) = .ok (some creator) ∧
    ThrowsOn i j (creator (f.request 1 (headRequest x s))) tail f

theorem request_chunkCache (max : Nat) (m : HttpRequest) (f : Framing) :
    (f.request max m).chunkCache = m.chunkCache := by
  rcases f with _ | n | _
  · rfl
  · cases n <;> rfl
  · rfl

theorem BehindHead.throws_iff {i j : Nat} {bytes tail : Bytes} {s : HeaderState} {f : Framing}
    {k : PayloadHandler}
    {g : Progress} (h : BehindHead x (HttpRequestReader.new i j).parser s f (some k) tail g)
    (hrun : (headerScanner x).run ({}, HttpRequest.fresh) bytes = .stop none s tail)
    (htail : tail ≠ []) :
    Throws g ↔ ThrowsOn i j k tail f := by
  have hcache : g.msg.chunkCache = [] := by rw [h.msg, request_chunkCache, (headRequest_empty hrun).2]
  unfold Throws
  rw [h.state, h.remaining, h.unread, h.chunk, hcache]
  rcases f with _ | n | _
  · exact Iff.rfl
  · cases n with
    | zero => exact iff_of_false (fun hn => hn) (fun hn => hn.1 rfl)
    | succ n =>
      constructor
      · rintro ⟨k', hk, hzero, hthrow⟩
        cases hk
        exact ⟨hzero, htail, hthrow⟩
      · rintro ⟨hzero, _, hthrow⟩
        exact ⟨k, rfl, hzero, hthrow⟩
  · exact Iff.rfl

theorem ThrowsOn.tail_ne {i j : Nat} {k : PayloadHandler} {tail : Bytes} {f : Framing}
    (h : ThrowsOn i j k tail f) :
    tail ≠ [] := by
  rcases f with _ | n | _
  · exact h.elim
  · exact h.2.1
  · rintro rfl
    obtain ⟨s, rest, hrun⟩ := h
    cases hrun

/-- **A new reader fails without an error code just if the payload handler throws.** -/
theorem parse_fails_iff (x : Externals) (server : HttpServer) (i j : Nat) (bytes : Bytes) :
    let r := parse x server.handleRequestAfterHeadersParsed (HttpRequestReader.new i j).parser
      HttpRequest.fresh none bytes
    r.rc = .ok .false ∧ r.ec = none ↔ PayloadThrows x server i j bytes := by
  constructor
  · rintro ⟨hrc, hec⟩
    cases (inHead_new x i j).fate server bytes with
    | inHead hrc' _ => cases hrc.symm.trans hrc'
    | badHead _ _ hec' => exact absurd hec hec'
    | unframed _ _ _ hec' => exact absurd hec hec'
    | unknown _ _ _ hrc' => cases hrc.symm.trans hrc'
    | @known s tail b hrun hframing hmethod _ _ _ =>
      obtain ⟨f, hf⟩ := Option.ne_none_iff_exists'.mp hframing
      obtain ⟨found, hfound⟩ := findPayload_supported server hmethod
      obtain ⟨g, hbehind, hbody, hnone, htail, _⟩ := parse_head (inHead_new x i j) hrun hf hfound
      have hthrows := hbody.fails hrc hec
      have hne : tail ≠ [] := fun hn => htail hn hrc
      cases found with
      | none => cases hrc.symm.trans (hnone rfl)
      | some creator => exact ⟨s, tail, f, creator, hrun, hf, hfound, (hbehind.throws_iff hrun hne).mp hthrows⟩
  · rintro ⟨s, tail, f, creator, hrun, hf, hfound, hthrows⟩
    obtain ⟨g, hbehind, _, _, _, hfails⟩ := parse_head (inHead_new x i j) hrun hf hfound
    have hne : tail ≠ [] := hthrows.tail_ne
    exact hfails (fun hn => by cases hn) hne ((hbehind.throws_iff hrun hne).mpr hthrows)

end Pion.Proof
