import Pion.Proof.Chunked

/-!
# A whole request

A request is a head that the header loop accepts, and the body that its headers
announce. What a head may look like is left to the header loop; what counts here is
the framing it leads to.

`parse_streamed` and `parse_buffered` are what `parse` makes of a whole request,
with and without a payload handler.
-/

namespace Pion.Proof

open Pion Lib

variable {x : Externals} {hook : Hook}

/-! ## The head -/

/-- The header loop of a new parser accepts these bytes, to the last one, as a head. -/
def Accepts (x : Externals) (head : Bytes) (s : HeaderState) : Prop :=
  (headerScanner x).run ({}, HttpRequest.fresh) head = .stop none s []

/-- A parser that has not read anything yet. -/
structure Unused (p : HttpParser) : Prop where
  state : p.messageParseState = .start
  header : p.toHeaderFields = {}
  chunkState : p.chunkedContentParseState = .chunkSizeStart
  headersOnly : p.parseHeadersOnly = false
  delivered : p.delivered = []

theorem fresh_unused (max i j : Nat) : Unused (HttpParser.fresh max i j) := ⟨rfl, rfl, rfl, rfl, rfl⟩

/-- The request as the headers alone describe it. -/
def headRequest (x : Externals) (s : HeaderState) : HttpRequest :=
  (beforeFraming x { HttpParser.fresh 0 0 0 with toHeaderFields := s.1 } s.2).2

theorem headRequest_contentLength (x : Externals) (s : HeaderState) : (headRequest x s).contentLength = 0 := by
  unfold headRequest beforeFraming updateMessageWithHeaderData HttpMessage.updateTransferEncodingUsingHeader
  dsimp only
  split <;> split <;> rfl

/-- Nothing of the body is in there yet. -/
theorem headRequest_empty {bytes tail : Bytes} {s : HeaderState} {r : Option ErrorValue}
    (h : (headerScanner x).run ({}, HttpRequest.fresh) bytes = .stop r s tail) :
    (headRequest x s).contentLength = 0 ∧ (headRequest x s).chunkCache = [] := by
  have hframe := headerScanner_stop_frame h
  have hcache : s.2.chunkCache = [] := by
    rw [hframe]
    rfl
  refine ⟨headRequest_contentLength x s, ?_⟩
  unfold headRequest beforeFraming updateMessageWithHeaderData HttpMessage.updateTransferEncodingUsingHeader
  dsimp only
  split <;> split <;> exact hcache

/-! ## The framing of the body -/

/-- What the headers say about the body. -/
inductive Framing where
  | none
  | length (n : Nat)
  | chunked
  deriving DecidableEq

namespace Framing

/-- The phase that reads the body. -/
def state : Framing → MessageParseState
  | none | length 0 => .end
  | length (_ + 1) => .content
  | chunked => .chunks

/-- The value that `m_bytes_content_remaining` starts with. -/
def remaining : Framing → Nat
  | length n => n
  | none | chunked => 0

/-- The result code that `finish_header_parsing` has in mind. -/
def rc : Framing → Tribool
  | none | length 0 => .true
  | length (_ + 1) | chunked => .indeterminate

/-- The request with a buffer for its content, no longer than the limit. -/
def request (max : Nat) (m : HttpRequest) : Framing → HttpRequest
  | none | chunked => m
  | length 0 => { m with contentLength := 0 }
  | length (n + 1) =>
    { m with contentLength := min (n + 1) max, contentBuf := List.replicate (min (n + 1) max) 0 }

end Framing

/-- The framing that the headers announce, if they make sense. -/
def framing (x : Externals) (m : HttpRequest) : Option Framing :=
  if m.isChunked then some .chunked
  else match m.headers.lookup headerContentLength with
    | .none => some .none
    | some v => (x.parseUint64 v).map fun n => .length n.toNat

theorem decideFraming_eq {p : HttpParser} (hp : p.parseHeadersOnly = false)
    (hr : p.bytesContentRemaining = 0) (m : HttpRequest) :
    decideFraming x p m = (framing x m).map fun f =>
      ({ p with messageParseState := f.state, bytesContentRemaining := f.remaining },
        f.request p.maxContentLength m, f.rc) := by
  obtain ⟨h, c, st, remaining, _, _, _, _⟩ := p
  dsimp only at hp hr
  subst hp hr
  unfold decideFraming framing HttpMessage.hasHeader HttpMessage.updateContentLengthUsingHeader
  split
  · rfl
  · cases hl : m.headers.lookup headerContentLength with
    | none => rfl
    | some v =>
      rw [Option.isSome_some, if_pos rfl]
      dsimp only
      cases x.parseUint64 v with
      | none => rfl
      | some n =>
        dsimp only [Option.map_some]
        -- `Content-Length: 0` ends the request with its head
        rcases n.toNat with _ | k
        · rfl
        · rw [if_neg (Nat.succ_ne_zero k)]
          dsimp only [Framing.state, Framing.remaining, Framing.rc, Framing.request,
            HttpMessage.createContentBuffer]
          by_cases hgt : k + 1 > c.maxContentLength
          · rw [if_pos hgt, if_neg Bool.false_ne_true, Nat.min_eq_right (Nat.le_of_lt hgt)]
          · rw [if_neg hgt, if_neg Bool.false_ne_true, Nat.min_eq_left (Nat.le_of_not_lt hgt)]

/-- Where the loop of `parse` stands behind a head of `n` bytes. -/
def behindHead (x : Externals) (p : HttpParser) (s : HeaderState) (n : Nat) (f : Framing)
    (k : Option PayloadHandler) (tail : Bytes) : Progress where
  parser := { p with
    toHeaderFields := s.1
    messageParseState := f.state
    bytesContentRemaining := f.remaining
    bytesContentRead := 0
    bytesLastRead := n
    bytesTotalRead := p.bytesTotalRead + n
    payloadHandler := k }
  msg := f.request p.maxContentLength (headRequest x s)
  ec := none
  unread := tail

theorem parseHeadersCase_headers [Memory] {g g₁ : Progress} (h : parseHeaders x g = (g₁, .true))
    (hst : g₁.parser.messageParseState = .headers) (t : Nat) :
    parseHeadersCase x hook g t = ((finishHeaderParsing x hook g₁).1, t + g₁.parser.bytesLastRead,
      (finishHeaderParsing x hook g₁).2) := by
  unfold parseHeadersCase
  rw [h]
  exact if_pos ⟨rfl, hst⟩

/-- Behind the framing decision, the hook has the last word. -/
theorem finishHeaderParsing_hook [Memory] {g : Progress} {p : HttpParser} {m : HttpRequest} {rc : Tribool}
    (hd : decideFraming x (beforeFraming x g.parser g.msg).1 (beforeFraming x g.parser g.msg).2 =
      some (p, m, rc)) (hbuf : contentBufferFails p m rc = false) :
    finishHeaderParsing x hook g = match hook m g.ec rc with
      | .error e => ({ g with parser := p, msg := m }, .error e)
      | .ok r => ({ g with
          parser := { p with payloadHandler := r.payloadHandler <|> p.payloadHandler }
          msg := m }, .ok r.rc) := by
  unfold finishHeaderParsing
  simp only [hd]
  exact if_neg (Bool.eq_false_iff.mp hbuf)

/-- The hook is not called when there is no memory for the content. -/
theorem finishHeaderParsing_throws [Memory] {g : Progress} {p : HttpParser} {m : HttpRequest} {rc : Tribool}
    (hd : decideFraming x (beforeFraming x g.parser g.msg).1 (beforeFraming x g.parser g.msg).2 =
      some (p, m, rc)) (hbuf : contentBufferFails p m rc = true) :
    finishHeaderParsing x hook g = ({ g with
      parser := p
      msg := { m with contentBuf := (beforeFraming x g.parser g.msg).2.contentBuf } }, .error .badAlloc) := by
  unfold finishHeaderParsing
  simp only [hd]
  exact if_pos hbuf

/-- **The first pass takes the head**, and leaves the rest of the buffer alone. -/
theorem parseSwitch_head {p : HttpParser} (hp : Unused p) {head : Bytes} {s : HeaderState}
    (hhead : Accepts x head s) {f : Framing} (hf : framing x (headRequest x s) = some f) (tail : Bytes) :
    parseSwitch x hook (opened p HttpRequest.fresh none (head ++ tail)) 0 =
      match hook (f.request p.maxContentLength (headRequest x s)) none f.rc with
      | .error e => (behindHead x p s head.length f p.payloadHandler tail, head.length, .error e)
      | .ok r => (behindHead x p s head.length f (r.payloadHandler <|> p.payloadHandler) tail,
          head.length, .ok r.rc) := by
  have hrun : (headerScanner x).run (p.toHeaderFields, HttpRequest.fresh) (head ++ tail) =
      .stop none s tail := by
    rw [hp.header, headerScanner_append, show (headerScanner x).run ({}, HttpRequest.fresh) head = _
      from hhead]
    rfl
  have hlen : (head ++ tail).length - tail.length = head.length := by
    rw [List.length_append]
    omega
  have hdone := parseHeaders_done (g := { opened p HttpRequest.fresh none (head ++ tail) with
    parser := { p with messageParseState := .headers } }) hrun
  -- the hook is called with the framing already decided
  have hsplit := decideFraming_eq (x := x) (p := (beforeFraming x (HttpParser.account
    { p with messageParseState := .headers, toHeaderFields := s.1 }
    ((head ++ tail).length - tail.length)) s.2).1) hp.headersOnly rfl (headRequest x s)
  rw [hf, Option.map_some] at hsplit
  refine (parseSwitch_start hp.state 0).trans ((parseHeadersCase_headers hdone rfl 0).trans ?_)
  rw [finishHeaderParsing_hook hsplit rfl]
  dsimp only [opened, HttpParser.account, beforeFraming, behindHead]
  rw [hlen, Nat.zero_add]
  rcases hook (f.request p.maxContentLength (headRequest x s)) none f.rc with e | r
  · rfl
  · rfl

/-! ## The body -/

/-- A body, as the headers may announce it. -/
inductive Body where
  | none
  | sized (data : Bytes)
  | chunked (b : ChunkedBody)

namespace Body

def text : Body → Bytes
  | none => []
  | sized data => data
  | chunked b => b.text

/-- The body without its framing. -/
def data : Body → Bytes
  | none => []
  | sized data => data
  | chunked b => b.data

def trailers : Body → List HeaderLine
  | chunked b => b.trailers
  | none | sized _ => []

def framing : Body → Framing
  | none => .none
  | sized data => .length data.length
  | chunked _ => .chunked

/-- The body is well formed, in a request of this version. -/
def Ok (version : UInt16) : Body → Prop
  | none | sized _ => True
  | chunked b => b.Ok ∧ (b.trailers ≠ [] → version ≠ 0)

/-- The body is one that the headers announce. -/
structure Fits (x : Externals) (s : HeaderState) (b : Body) : Prop where
  framing : Proof.framing x (headRequest x s) = some b.framing
  ok : b.Ok (headRequest x s).versionMajor

/-- The part of the body that is left unread when there is a payload handler. -/
def leftover (b : Body) : Bytes :=
  if b.trailers = [] then [] else headerText b.trailers ++ stringCrlf

theorem leftover_nil {b : Body} (h : b.trailers = []) : b.leftover = [] := if_pos h

end Body

theorem parseSwitch_wholeContent (x : Externals) (hook : Hook) {g : Progress} {data rest : Bytes}
    (hcalm : Calm g.parser.toChunkFields) (hst : g.parser.messageParseState = .content)
    (hrem : g.parser.bytesContentRemaining = data.length) (hne : data ≠ [])
    (hunread : g.unread = data ++ rest) (t : Nat) :
    ∃ t', parseSwitch x hook g t = (takeContent g data, t', .ok .true) := by
  have hpos : g.parser.bytesContentRemaining ≠ 0 := by
    rw [hrem]
    exact fun h => hne (List.eq_nil_of_length_eq_zero h)
  have hall : g.unread.length ≥ g.parser.bytesContentRemaining := by
    rw [hunread, hrem, List.length_append]
    omega
  have hconsume := consumeContent_eq hcalm hpos
  rw [if_pos hall, hunread, hrem, List.take_left] at hconsume
  refine ⟨t + (takeContent g data).parser.bytesLastRead, ?_⟩
  rw [parseSwitch_content hst, hconsume]

/-! ## Streaming -/

/-- Where the loop of `parse` stands when a payload handler was given all of `data`. -/
structure Streamed (g : Progress) (k : PayloadHandler) (data rest : Bytes) (g' : Progress) : Prop where
  unread : g'.unread = rest
  ec : g'.ec = g.ec
  msg : g'.msg = g.msg
  handler : g'.parser.payloadHandler = some k
  delivered : g'.parser.delivered = g.parser.delivered ++ data

theorem parseSwitch_streamedContent (x : Externals) (hook : Hook) {g : Progress} {k : PayloadHandler}
    {data rest : Bytes} (hk : g.parser.payloadHandler = some k) (hcalm : NoThrow k)
    (hst : g.parser.messageParseState = .content)
    (hrem : g.parser.bytesContentRemaining = data.length) (hne : data ≠ [])
    (hunread : g.unread = data ++ rest) (t : Nat) :
    ∃ g' t', parseSwitch x hook g t = (g', t', .ok .true) ∧ Streamed g k data rest g' := by
  have hsome : g.parser.payloadHandler.isSome = true := by rw [hk]; rfl
  obtain ⟨t', hpass⟩ := parseSwitch_wholeContent x hook (calm_some hk hcalm) hst hrem
    hne hunread t
  refine ⟨_, t', hpass, ?_⟩
  rw [takeContent_handler hsome]
  refine ⟨?_, rfl, rfl, hk, rfl⟩
  show g.unread.drop data.length = rest
  rw [hunread, List.drop_left]

/-- The chunk loop ends behind the body, or in front of the trailers: when there is a
payload handler, nobody reads on from there. -/
theorem parseSwitch_streamedChunks (x : Externals) (hook : Hook) {b : ChunkedBody} (hb : b.Ok)
    {g : Progress} {k : PayloadHandler} {rest : Bytes} (hk : g.parser.payloadHandler = some k) (hcalm : NoThrow k)
    (hst : g.parser.messageParseState = .chunks)
    (hcst : g.parser.chunkedContentParseState = .chunkSizeStart)
    (hunread : g.unread = b.text ++ rest) (t : Nat) :
    ∃ g' t', parseSwitch x hook g t = (g', t', .ok .true) ∧
      Streamed g k b.data ((Body.chunked b).leftover ++ rest) g' := by
  let s : ChunkState := (g.parser.toChunkFields, g.msg.chunkCache)
  have hs : atChunk s = s := atChunk_self hcst
  have hsome : s.1.payloadHandler.isSome = true := by
    show g.parser.payloadHandler.isSome = true
    rw [hk]
    rfl
  have hroom : Room s b.data.length := fun hn => by
    rw [show s.1.payloadHandler = some k from hk] at hn
    cases hn
  -- with a handler, the chunk cache stays as it was
  have hkeep : ∀ u, Absorbed s b.data u → u.1.payloadHandler = some k ∧
      u.1.delivered = g.parser.delivered ++ b.data ∧ { g.msg with chunkCache := u.2 } = g.msg := by
    intro u hu
    have hd := hu.delivered
    have hc := hu.cache
    rw [absorb_handler hsome] at hd hc
    refine ⟨hu.frame.1.trans hk, hd, ?_⟩
    rw [hc]
  by_cases htr : b.trailers = []
  · obtain ⟨u, hu, hrun⟩ := readChunkedBody_done hb htr (calm_some (p := s.1) hk hcalm) hroom rest
    rw [hs, ← hunread] at hrun
    obtain ⟨h1, h2, h3⟩ := hkeep u hu
    refine ⟨_, _, (parseSwitch_chunks hst t).trans
      (parseChunksCase_streamed (parseChunks_done hrun) ?_ t), ?_, rfl, h3, h1, h2⟩
    · exact fun hn => by rw [show u.1.payloadHandler = _ from hn] at h1; cases h1
    · rw [Body.leftover_nil (b := .chunked b) htr]
      rfl
  -- the pass ends here with `true` and never reaches the footers
  · obtain ⟨u, hu, hrun⟩ := readChunkedBody_footers hb htr (calm_some (p := s.1) hk hcalm) hroom rest
    rw [hs, ← hunread] at hrun
    obtain ⟨h1, h2, h3⟩ := hkeep u hu
    refine ⟨_, _, (parseSwitch_chunks hst t).trans
      (parseChunksCase_streamed (parseChunks_footers hrun) ?_ t), ?_, rfl, h3, h1, h2⟩
    · exact fun hn => by rw [show u.1.payloadHandler = _ from hn] at h1; cases h1
    · unfold Body.leftover
      rw [if_neg (by exact htr)]
      rfl

/-- The hook does not overrule the result code, and leaves the parser with `k`. -/
def Hooked (x : Externals) (hook : Hook) (p : HttpParser) (s : HeaderState) (f : Framing)
    (k : Option PayloadHandler) : Prop :=
  ∃ r, hook (f.request p.maxContentLength (headRequest x s)) none f.rc = .ok r ∧ r.rc = f.rc ∧
    (r.payloadHandler <|> p.payloadHandler) = k

theorem noHook_hooked {p : HttpParser} (s : HeaderState) (f : Framing) :
    Hooked x noHook p s f p.payloadHandler := ⟨_, rfl, rfl, rfl⟩

theorem Hooked.parseSwitch_head {p : HttpParser} (hp : Unused p) {head : Bytes} {s : HeaderState}
    (hhead : Accepts x head s) {f : Framing} (hf : framing x (headRequest x s) = some f)
    {k : Option PayloadHandler} (hook_ok : Hooked x hook p s f k) (tail : Bytes) :
    parseSwitch x hook (opened p HttpRequest.fresh none (head ++ tail)) 0 =
      (behindHead x p s head.length f k tail, head.length, .ok f.rc) := by
  obtain ⟨r, hr, hrc, hk⟩ := hook_ok
  rw [Proof.parseSwitch_head hp hhead hf tail, hr]
  dsimp only
  rw [hrc, hk]

/-- The loop of `parse` over a request with a payload handler. -/
theorem parseLoop_streamed {p : HttpParser} (hp : Unused p) {head : Bytes} {s : HeaderState}
    (hhead : Accepts x head s) {body : Body} (hfit : body.Fits x s) {k : PayloadHandler}
    (hh : Hooked x hook p s body.framing (some k)) (hcalm : NoThrow k) (rest : Bytes) :
    ∃ g t, parseLoop x hook 3 (opened p HttpRequest.fresh none (head ++ (body.text ++ rest))) 0 =
        (g, t, .ok .true) ∧
      Streamed (behindHead x p s head.length body.framing (some k) (body.text ++ rest)) k body.data
        (body.leftover ++ rest) g := by
  have hpass := hh.parseSwitch_head hp hhead hfit.framing (body.text ++ rest)
  have hempty : Streamed (behindHead x p s head.length body.framing (some k) rest) k [] rest
      (behindHead x p s head.length body.framing (some k) rest) :=
    ⟨rfl, rfl, rfl, rfl, (List.append_nil _).symm⟩
  cases body with
  | none => exact ⟨_, _, parseLoop_done hpass (fun h => by cases h) 2, hempty⟩
  | sized data =>
    cases data with
    | nil => exact ⟨_, _, parseLoop_done hpass (fun h => by cases h) 2, hempty⟩
    | cons c cs =>
      rw [parseLoop_next hpass (fun h => by cases h) 2]
      obtain ⟨g', t', hpass', hg'⟩ := parseSwitch_streamedContent x hook
        (g := behindHead x p s head.length (.length (c :: cs).length) (some k) ((c :: cs) ++ rest))
        rfl hcalm rfl rfl (List.cons_ne_nil c cs) rfl head.length
      exact ⟨g', t', parseLoop_done hpass' (fun h => by cases h) 1, hg'⟩
  | chunked b =>
    rw [parseLoop_next hpass (List.append_ne_nil_of_left_ne_nil b.text_ne_nil rest) 2]
    obtain ⟨g', t', hpass', hg'⟩ := parseSwitch_streamedChunks x hook hfit.ok.1
      (g := behindHead x p s head.length .chunked (some k) (b.text ++ rest))
      rfl hcalm rfl hp.chunkState rfl head.length
    exact ⟨g', t', parseLoop_done hpass' (fun h => by cases h) 1, hg'⟩

/-- A request that `finish` has nothing to add to but its status. -/
def concluded (m : HttpRequest) : HttpRequest := computeMsgStatus { m with isValid := true } true

theorem parseEnd_streamed {g : Progress} (hk : g.parser.payloadHandler ≠ none) (t : Nat) :
    parseEnd x g t (.ok .true) = { g with
      parser := { g.parser with messageParseState := .end, bytesLastRead := t }
      msg := concluded g.msg
      rc := .ok .true } := by
  unfold parseEnd
  dsimp only
  rw [finish_end, if_neg (fun h => hk (Option.isNone_iff_eq_none.mp h.1))]
  rfl

/-- **A request with a payload handler**: the handler is given the data of the body, in
order and nothing else, and what stands behind the body is left alone. So are, however,
the trailers. -/
theorem parse_streamed {p : HttpParser} (hp : Unused p) {head : Bytes} {s : HeaderState}
    (hhead : Accepts x head s) {body : Body} (hfit : body.Fits x s) {k : PayloadHandler}
    (hh : Hooked x hook p s body.framing (some k)) (hcalm : NoThrow k) (rest : Bytes) :
    let r := parse x hook p HttpRequest.fresh none (head ++ (body.text ++ rest))
    r.rc = .ok .true ∧ r.ec = none ∧ r.unread = body.leftover ++ rest ∧
      r.parser.delivered = body.data ∧
      r.msg = concluded (body.framing.request p.maxContentLength (headRequest x s)) := by
  obtain ⟨g, t, hloop, hg⟩ := parseLoop_streamed hp hhead hfit hh hcalm rest
  have hk : g.parser.payloadHandler ≠ none := by
    rw [hg.handler]
    exact fun h => by cases h
  rw [parse_of_loop hloop, parseEnd_streamed hk]
  refine ⟨rfl, hg.ec, hg.unread, ?_, congrArg concluded hg.msg⟩
  show g.parser.delivered = body.data
  rw [hg.delivered, show (behindHead x p s head.length body.framing (some k) _).parser.delivered = []
    from hp.delivered, List.nil_append]

/-! ## Buffering -/

/-- The whole content fits into the buffer that was made for it. -/
theorem storeContent_whole {p : HttpParser} {data : Bytes} (hread : p.bytesContentRead = 0)
    (hmax : data.length ≤ p.maxContentLength) {m : HttpRequest} (hlen : m.contentBuf.length = data.length) :
    storeContent p m data = { m with contentBuf := data } := by
  rw [storeContent_eq, hread, Nat.sub_zero, List.take_of_length_le hmax]
  unfold HttpMessage.copyToContent
  rw [Nat.zero_add, ← hlen, List.drop_length, List.take_zero, List.append_nil]
  rfl

/-- Where the loop of `parse` stands when all of the body is in the message. -/
structure Buffered (x : Externals) (m : HttpRequest) (body : Body) (rest : Bytes) (g : Progress) :
    Prop where
  unread : g.unread = rest
  handler : g.parser.payloadHandler = none
  headersOnly : g.parser.parseHeadersOnly = false
  headers : g.msg.headers = addHeaders x m.headers body.trailers
  content : g.msg.content = body.data

/-- The loop of `parse` over a request without a payload handler. -/
theorem parseLoop_buffered {p : HttpParser} (hp : Unused p) {head : Bytes} {s : HeaderState}
    (hhead : Accepts x head s) {body : Body} (hfit : body.Fits x s)
    (hh : Hooked x hook p s body.framing none) (hmax : body.data.length ≤ p.maxContentLength)
    (hread : ∀ l ∈ body.trailers, l.Readable) (rest : Bytes) :
    ∃ g t, parseLoop x hook 3 (opened p HttpRequest.fresh none (head ++ (body.text ++ rest))) 0 =
      (g, t, .ok .true) ∧ Buffered x (headRequest x s) body rest g := by
  have hpass := hh.parseSwitch_head hp hhead hfit.framing (body.text ++ rest)
  obtain ⟨hlen, hcache⟩ := headRequest_empty hhead
  cases body with
  | none =>
    refine ⟨_, _, parseLoop_done hpass (fun h => by cases h) 2, rfl, rfl, hp.headersOnly, rfl, ?_⟩
    show (headRequest x s).contentBuf.take (headRequest x s).contentLength = []
    rw [hlen, List.take_zero]
  | sized data =>
    cases data with
    | nil =>
      refine ⟨_, _, parseLoop_done hpass (fun h => by cases h) 2, rfl, rfl, hp.headersOnly, rfl, ?_⟩
      exact List.take_zero
    | cons c cs =>
      rw [parseLoop_next hpass (fun h => by cases h) 2]
      let g := behindHead x p s head.length (.length (c :: cs).length) none ((c :: cs) ++ rest)
      have hroom : (c :: cs).length ≤ p.maxContentLength := hmax
      obtain ⟨t', hpass'⟩ := parseSwitch_wholeContent x hook (g := g)
        (calm_none rfl) rfl rfl (List.cons_ne_nil c cs) rfl head.length
      -- the buffer was made by `createContentBuffer`, as long as the announced content
      have hbuf : g.msg.contentBuf.length = (c :: cs).length := by
        show (List.replicate (min (c :: cs).length p.maxContentLength) (0 : UInt8)).length = _
        rw [List.length_replicate, Nat.min_eq_left hroom]
      rw [takeContent_cache (by exact Bool.false_ne_true),
        storeContent_whole (p := g.parser) rfl hroom hbuf] at hpass'
      refine ⟨_, t', parseLoop_done hpass' (fun h => by cases h) 1, ?_, rfl, hp.headersOnly, rfl, ?_⟩
      · exact List.drop_left
      · show (c :: cs).take (min (c :: cs).length p.maxContentLength) = c :: cs
        rw [Nat.min_eq_left hroom, List.take_length]
  | chunked b =>
    rw [parseLoop_next hpass (List.append_ne_nil_of_left_ne_nil b.text_ne_nil rest) 2]
    obtain ⟨g', t', hloop, hg'⟩ := parseLoop_chunked hfit.ok.1
      (g := behindHead x p s head.length .chunked none (b.text ++ rest))
      rfl hp.chunkState rfl hcache hmax rfl x hook hfit.ok.2 hread 0 head.length
    refine ⟨g', t', hloop, hg'.unread, hg'.handler, hg'.headersOnly.trans hp.headersOnly, ?_, ?_⟩
    · rw [hg'.msg]
      rfl
    · rw [hg'.msg]
      exact withBody_content (x := x) _ b

/-- A trailer that is well formed and not readable: `parse` returns false. -/
theorem parse_unreadable {p : HttpParser} (hp : Unused p) {head : Bytes} {s : HeaderState}
    (hhead : Accepts x head s) {body : Body} (hfit : body.Fits x s)
    (hh : Hooked x hook p s body.framing none) (hmax : body.data.length ≤ p.maxContentLength)
    (hnot : ¬ ∀ l ∈ body.trailers, l.Readable) (rest : Bytes) :
    (parse x hook p HttpRequest.fresh none (head ++ (body.text ++ rest))).rc = .ok .false := by
  have hpass := hh.parseSwitch_head hp hhead hfit.framing (body.text ++ rest)
  cases body with
  | none => exact absurd (fun l hl => by cases hl) hnot
  | sized data => exact absurd (fun l hl => by cases hl) hnot
  | chunked b =>
    obtain ⟨g, t, hloop⟩ := parseLoop_unreadable hfit.ok.1
      (g := behindHead x p s head.length .chunked none (b.text ++ rest))
      rfl hp.chunkState rfl (headRequest_empty hhead).2 hmax rfl x hook hfit.ok.2 hnot 0 head.length
    have hnext := parseLoop_next hpass (List.append_ne_nil_of_left_ne_nil b.text_ne_nil rest) 2
    rw [parse_of_loop (hnext.trans hloop)]
    rfl

/-- **A request without a payload handler**: the data of the body becomes the content and
the trailers join the headers, and what stands behind the body is left alone. -/
theorem parse_buffered {p : HttpParser} (hp : Unused p) {head : Bytes} {s : HeaderState}
    (hhead : Accepts x head s) {body : Body} (hfit : body.Fits x s)
    (hh : Hooked x hook p s body.framing none) (hmax : body.data.length ≤ p.maxContentLength)
    (hread : ∀ l ∈ body.trailers, l.Readable) (rest : Bytes) :
    let r := parse x hook p HttpRequest.fresh none (head ++ (body.text ++ rest))
    r.unread = rest ∧ r.msg.content = body.data ∧
      r.msg.headers = addHeaders x (headRequest x s).headers body.trailers ∧
      (r.rc = .ok .true ↔ ¬ FormThrows x ((addHeaders x (headRequest x s).headers
        body.trailers).getValue headerContentType) body.data) := by
  obtain ⟨g, t, hloop, hg⟩ := parseLoop_buffered hp hhead hfit hh hmax hread rest
  obtain ⟨hunread, _, _, hmsg, hrc⟩ := parseEnd_true (x := x) g t
  have hthrow : FinishThrows x g.parser g.msg ↔ FormThrows x ((addHeaders x (headRequest x s).headers
      body.trailers).getValue headerContentType) body.data := by
    unfold FinishThrows HttpMessage.getHeader
    rw [hg.handler, hg.headersOnly, hg.headers, hg.content]
    exact ⟨fun h => h.2.2, fun h => ⟨rfl, rfl, h⟩⟩
  rw [parse_of_loop hloop]
  refine ⟨hunread.trans hg.unread, ?_, ?_, hrc.trans (not_congr hthrow)⟩
  · rw [hmsg]
    exact hg.content
  · rw [hmsg]
    exact hg.headers

end Pion.Proof
