import Pion.Proof.Segmentation

/-!
# Parsers that have been used before

`reset` puts back the states, the texts of the request line and the three counters that
a caller can see. The name and the value of the last header, the digits of the last
chunk size, the two chunk counters and the number of content bytes still to come are
left as they were, and a new parser has nothing in particular in some of them.

None of it is read before it is written. Two parsers are alike when they differ only in
fields that the state they are in does not read; every step from alike parsers does the
same and ends in parsers that are alike again.
-/

namespace Pion.Proof

open Pion Lib

variable {x : Externals}

/-! ## The header loop -/

/-- The states that read the header name collected so far. -/
def ReadsName : HeaderParseState → Prop
  | .headerName | .spaceBeforeHeaderValue | .headerValue => True
  | _ => False

/-- The states that read the header value collected so far. -/
def ReadsValue : HeaderParseState → Prop
  | .spaceBeforeHeaderValue | .headerValue => True
  | _ => False

/-- Alike, but for a header name and a header value that will not be read. -/
structure HeadersAlike (p q : HeaderFields) : Prop where
  eq : q = { p with headerName := q.headerName, headerValue := q.headerValue }
  name : ReadsName p.headersParseState → q.headerName = p.headerName
  value : ReadsValue p.headersParseState → q.headerValue = p.headerValue

/-- The same of the state that the header loop carries. -/
def HeaderStatesAlike (s t : HeaderState) : Prop := HeadersAlike s.1 t.1 ∧ t.2 = s.2

theorem HeadersAlike.recordRaw {p q : HeaderFields} (h : HeadersAlike p q) (bs : Bytes) :
    HeadersAlike (p.recordRaw bs) (q.recordRaw bs) := by
  refine ⟨?_, h.name, h.value⟩
  rw [h.eq]
  rfl

theorem headerSwitch_alike {s t : HeaderState} (h : HeaderStatesAlike s t) (c : UInt8) :
    (headerSwitch x s c).Alike HeaderStatesAlike (headerSwitch x t c) := by
  obtain ⟨p, m⟩ := s
  obtain ⟨q, m'⟩ := t
  obtain ⟨h, rfl⟩ := h
  dsimp only at h
  rcases p with ⟨st, code, msg, method, resource, query, raw, name, value, save⟩
  obtain ⟨name', value', rfl⟩ : ∃ n v,
      q = ⟨st, code, msg, method, resource, query, raw, n, v, save⟩ := ⟨_, _, h.eq⟩
  have hname := h.name
  have hvalue := h.value
  unfold headerSwitch
  dsimp only [headerError, headerGoto, headerDone, setVersionZero, addHeader, startHeaderName,
    expectVersionByte] at hname hvalue ⊢
  cases st
  -- a text that the state reads is the same in both
  case' headerName => obtain rfl := hname trivial
  case' spaceBeforeHeaderValue | headerValue =>
    obtain rfl := hname trivial
    obtain rfl := hvalue trivial
  all_goals
    repeat' apply of_ite₂
    all_goals
      first
      | exact .take ⟨⟨rfl, fun _ => rfl, fun _ => rfl⟩, rfl⟩
      | exact .take ⟨⟨rfl, fun _ => rfl, False.elim⟩, rfl⟩
      | exact .take ⟨⟨rfl, False.elim, False.elim⟩, rfl⟩
      | exact .stop _ _ ⟨h, rfl⟩

theorem headerScanner_alike {s t : HeaderState} (h : HeaderStatesAlike s t) (buf : Bytes) :
    ((headerScanner x).run s buf).Alike HeaderStatesAlike ((headerScanner x).run t buf) := by
  refine (headerScanner x).run_alike ?_ buf s t h
  intro s t c cs hst
  refine (headerSwitch_alike (s := (s.1.recordRaw [c], s.2)) (t := (t.1.recordRaw [c], t.2))
    ⟨hst.1.recordRaw [c], hst.2⟩ c).onBuffer c cs

/-! ## The chunk loop -/

/-- The states that read the digits of a chunk size collected so far. -/
def ReadsSize : ChunkParseState → Prop
  | .chunkSize | .expectingIgnoredTextAfterChunkSize | .expectingCrAfterChunkSize
  | .expectingLfAfterChunkSize => True
  | _ => False

/-- Alike, but for digits and for chunk counters that will not be read. -/
structure ChunksAlike (p q : ChunkFields) : Prop where
  eq : q = { p with
    chunkSizeStr := q.chunkSizeStr, sizeOfCurrentChunk := q.sizeOfCurrentChunk
    bytesReadInCurrentChunk := q.bytesReadInCurrentChunk }
  size : ReadsSize p.chunkedContentParseState → q.chunkSizeStr = p.chunkSizeStr
  counters : p.chunkedContentParseState = .chunk →
    q.sizeOfCurrentChunk = p.sizeOfCurrentChunk ∧
      q.bytesReadInCurrentChunk = p.bytesReadInCurrentChunk

def ChunkStatesAlike (s t : ChunkState) : Prop := ChunksAlike s.1 t.1 ∧ t.2 = s.2

theorem chunkSwitch_alike {s t : ChunkState} (h : ChunkStatesAlike s t) (c : UInt8)
    (hst : s.1.chunkedContentParseState ≠ .chunk) :
    (chunkSwitch s c).Alike ChunkStatesAlike (chunkSwitch t c) := by
  obtain ⟨p, cache⟩ := s
  obtain ⟨q, cache'⟩ := t
  obtain ⟨h, rfl⟩ := h
  dsimp only at h hst
  rcases p with ⟨st, handler, digits, size, read, max, given⟩
  obtain ⟨digits', size', read', rfl⟩ : ∃ d n k, q = ⟨st, handler, d, n, k, max, given⟩ :=
    ⟨_, _, _, h.eq⟩
  have hdigits := h.size
  unfold chunkSwitch
  dsimp only [chunkError, chunkGoto] at hdigits hst ⊢
  cases st
  case chunk => exact absurd rfl hst
  case' chunkSize | expectingIgnoredTextAfterChunkSize | expectingCrAfterChunkSize
      | expectingLfAfterChunkSize => obtain rfl := hdigits trivial
  all_goals
    repeat' apply of_ite₂
    all_goals
      first
      | exact .take ⟨⟨rfl, fun _ => rfl, fun h => by cases h⟩, rfl⟩
      | exact .take ⟨⟨rfl, False.elim, fun h => by cases h⟩, rfl⟩
      | exact .take ⟨⟨rfl, fun _ => rfl, fun _ => ⟨rfl, rfl⟩⟩, rfl⟩
      | exact .stop _ _ ⟨h, rfl⟩

theorem endOfChunk_alike {s t : ChunkState} (h : ChunkStatesAlike s t)
    (hst : s.1.chunkedContentParseState = .chunk) :
    ChunkStatesAlike (endOfChunk s) (endOfChunk t) := by
  obtain ⟨hsize, hread⟩ := h.1.counters hst
  unfold endOfChunk
  rw [hsize, hread, h.2]
  split
  · refine ⟨⟨?_, False.elim, fun h => by cases h⟩, rfl⟩
    rw [h.1.eq]
  · exact ⟨h.1, h.2⟩

theorem chunkData_alike {s t : ChunkState} (h : ChunkStatesAlike s t)
    (hst : s.1.chunkedContentParseState = .chunk) (c : UInt8) (cs : Bytes) :
    (chunkData s c cs).Alike ChunkStatesAlike (chunkData t c cs) := by
  obtain ⟨p, cache⟩ := s
  obtain ⟨q, cache'⟩ := t
  obtain ⟨h, rfl⟩ := h
  dsimp only at h hst
  rcases p with ⟨st, handler, digits, size, read, max, given⟩
  obtain ⟨digits', size', read', rfl⟩ : ∃ d n k, q = ⟨st, handler, d, n, k, max, given⟩ :=
    ⟨_, _, _, h.eq⟩
  obtain ⟨hsize, hread⟩ := h.counters hst
  dsimp only at hsize hread hst
  subst hsize hread hst
  unfold chunkData ChunkFields.deliver
  dsimp only
  apply of_ite₂
  · cases handler with
    | none =>
      dsimp only
      apply of_ite₂
      · exact .next _ (endOfChunk_alike ⟨⟨rfl, False.elim, fun _ => ⟨rfl, rfl⟩⟩, rfl⟩ rfl)
      · exact .next _ (endOfChunk_alike ⟨h, rfl⟩ rfl)
    | some k =>
      dsimp only
      by_cases hthrow : k.throws given ((c :: cs).take (min (size' - read') (c :: cs).length)) = true
      · rw [if_pos hthrow, if_pos hthrow]
        exact .stop _ _ ⟨h, rfl⟩
      · rw [if_neg hthrow, if_neg hthrow]
        exact .next _ (endOfChunk_alike ⟨⟨rfl, False.elim, fun _ => ⟨rfl, rfl⟩⟩, rfl⟩ rfl)
  · exact .next _ (endOfChunk_alike ⟨h, rfl⟩ rfl)

theorem chunkScanner_alike {s t : ChunkState} (h : ChunkStatesAlike s t) (buf : Bytes) :
    (chunkScanner.run s buf).Alike ChunkStatesAlike (chunkScanner.run t buf) := by
  refine chunkScanner.run_alike ?_ buf s t h
  intro s t c cs hst
  have hstate : t.1.chunkedContentParseState = s.1.chunkedContentParseState := by rw [hst.1.eq]
  show (chunkStep s c cs).Alike ChunkStatesAlike (chunkStep t c cs)
  unfold chunkStep
  rw [hstate]
  split
  · rename_i hchunk
    exact chunkData_alike hst hchunk c cs
  · rename_i hchunk
    exact (chunkSwitch_alike hst c hchunk).onBuffer c cs

/-! ## The parser -/

/-- Alike, but for fields that will not be read. -/
structure ParsersAlike (p q : HttpParser) : Prop where
  headers : HeadersAlike p.toHeaderFields q.toHeaderFields
  chunks : ChunksAlike p.toChunkFields q.toChunkFields
  messageParseState : q.messageParseState = p.messageParseState
  remaining : p.messageParseState = .content → q.bytesContentRemaining = p.bytesContentRemaining
  contentRead : q.bytesContentRead = p.bytesContentRead
  lastRead : q.bytesLastRead = p.bytesLastRead
  totalRead : q.bytesTotalRead = p.bytesTotalRead
  headersOnly : q.parseHeadersOnly = p.parseHeadersOnly

/-- The same of a parser with its message, error code and buffer. -/
structure ProgressAlike (g h : Progress) : Prop where
  parser : ParsersAlike g.parser h.parser
  msg : h.msg = g.msg
  ec : h.ec = g.ec
  unread : h.unread = g.unread

namespace ParsersAlike

variable {p q : HttpParser}

theorem withHeaders (h : ParsersAlike p q) {u v : HeaderFields} (huv : HeadersAlike u v) :
    ParsersAlike { p with toHeaderFields := u } { q with toHeaderFields := v } :=
  { h with headers := huv }

theorem withChunks (h : ParsersAlike p q) {u v : ChunkFields} (huv : ChunksAlike u v) :
    ParsersAlike { p with toChunkFields := u } { q with toChunkFields := v } :=
  { h with chunks := huv }

theorem setRemaining (h : ParsersAlike p q) (n : Nat) :
    ParsersAlike { p with bytesContentRemaining := n } { q with bytesContentRemaining := n } :=
  { h with remaining := fun _ => rfl }

theorem setLast (h : ParsersAlike p q) (n : Nat) :
    ParsersAlike { p with bytesLastRead := n } { q with bytesLastRead := n } :=
  { h with lastRead := rfl }

theorem account (h : ParsersAlike p q) (n : Nat) : ParsersAlike (p.account n) (q.account n) :=
  { h with lastRead := rfl, totalRead := congrArg (· + n) h.totalRead }

theorem accountContent (h : ParsersAlike p q) (n : Nat) :
    ParsersAlike (p.accountContent n) (q.accountContent n) :=
  { h with
    lastRead := rfl
    totalRead := congrArg (· + n) h.totalRead
    contentRead := congrArg (· + n) h.contentRead }

end ParsersAlike

theorem parseHeaders_alike {g h : Progress} (hgh : ProgressAlike g h) :
    ProgressAlike (parseHeaders x g).1 (parseHeaders x h).1 ∧
      (parseHeaders x h).2 = (parseHeaders x g).2 := by
  obtain ⟨hp, hmsg, hec, hunread⟩ := hgh
  have hrun := headerScanner_alike (x := x) (s := (g.parser.toHeaderFields, g.msg))
    (t := (h.parser.toHeaderFields, h.msg)) ⟨hp.headers, hmsg⟩ g.unread
  unfold parseHeaders
  rw [hunread]
  dsimp only
  generalize (headerScanner x).run (g.parser.toHeaderFields, g.msg) g.unread = o,
    (headerScanner x).run (h.parser.toHeaderFields, h.msg) g.unread = o' at hrun ⊢
  cases hrun with
  | more hs => exact ⟨⟨((hp.setLast 0).withHeaders hs.1).account _, hs.2, hec, rfl⟩, rfl⟩
  | stop r rest hs =>
    cases r with
    | none => exact ⟨⟨((hp.setLast 0).withHeaders hs.1).account _, hs.2, hec, rfl⟩, rfl⟩
    | some e => exact ⟨⟨(hp.setLast 0).withHeaders hs.1, hs.2, rfl, rfl⟩, rfl⟩

theorem parseChunks_alike {g h : Progress} (hgh : ProgressAlike g h) :
    ProgressAlike (parseChunks g).1 (parseChunks h).1 ∧ (parseChunks h).2 = (parseChunks g).2 := by
  obtain ⟨hp, hmsg, hec, hunread⟩ := hgh
  have hrun := chunkScanner_alike (s := (g.parser.toChunkFields, g.msg.chunkCache))
    (t := (h.parser.toChunkFields, h.msg.chunkCache)) ⟨hp.chunks, by rw [hmsg]⟩ g.unread
  have hfooters : HeadersAlike { g.parser.toHeaderFields with headersParseState := .headerStart }
      { h.parser.toHeaderFields with headersParseState := .headerStart } := by
    refine ⟨?_, False.elim, False.elim⟩
    rw [hp.headers.eq]
  have hlast := hp.setLast 0
  unfold parseChunks
  rw [hunread, hmsg]
  rw [hmsg] at hrun
  dsimp only
  generalize chunkScanner.run (g.parser.toChunkFields, g.msg.chunkCache) g.unread = o,
    chunkScanner.run (h.parser.toChunkFields, g.msg.chunkCache) g.unread = o' at hrun ⊢
  have hcache : ∀ {s t : ChunkState}, t.2 = s.2 →
      { g.msg with chunkCache := t.2 } = { g.msg with chunkCache := s.2 } := by
    intro s t hst
    rw [hst]
  cases hrun with
  | more hs => exact ⟨⟨(hlast.withChunks hs.1).accountContent _, hcache hs.2, hec, rfl⟩, rfl⟩
  | stop r rest hs =>
    cases r with
    | done => exact ⟨⟨(hlast.withChunks hs.1).accountContent _, hcache hs.2, hec, rfl⟩, rfl⟩
    | footers =>
      have hnext := (hlast.withChunks hs.1).withHeaders hfooters
      refine ⟨⟨ParsersAlike.accountContent ?_ _, hcache hs.2, hec, rfl⟩, rfl⟩
      exact { hnext with messageParseState := rfl, remaining := fun h => (by cases h) }
    | error e => exact ⟨⟨hlast.withChunks hs.1, hcache hs.2, rfl, rfl⟩, rfl⟩
    | threw => exact ⟨⟨hlast.withChunks hs.1, hcache hs.2, hec, rfl⟩, rfl⟩

theorem ChunksAlike.handler {p q : ChunkFields} (h : ChunksAlike p q) :
    q.payloadHandler = p.payloadHandler := by rw [h.eq]

theorem ChunksAlike.limit {p q : ChunkFields} (h : ChunksAlike p q) :
    q.maxContentLength = p.maxContentLength := by rw [h.eq]

theorem ChunksAlike.state {p q : ChunkFields} (h : ChunksAlike p q) :
    q.chunkedContentParseState = p.chunkedContentParseState := by rw [h.eq]

/-- The payload handler treats alike parsers alike. -/
theorem deliver_alike {p q : ChunkFields} (h : ChunksAlike p q) (k : PayloadHandler) (span : Bytes) :
    Option.Rel ChunksAlike (p.deliver k span) (q.deliver k span) := by
  have hgiven : q.delivered = p.delivered := by rw [h.eq]
  unfold ChunkFields.deliver
  rw [hgiven]
  split
  · exact .none
  · refine .some ⟨?_, h.size, h.counters⟩
    rw [h.eq]

theorem storeContent_alike {p q : HttpParser} (h : ChunksAlike p.toChunkFields q.toChunkFields)
    (hread : q.bytesContentRead = p.bytesContentRead) (m : HttpRequest) (data : Bytes) :
    storeContent q m data = storeContent p m data := by
  unfold storeContent
  rw [hread, h.limit]

theorem consumeContent_alike {g h : Progress} (hgh : ProgressAlike g h)
    (hst : g.parser.messageParseState = .content) :
    ProgressAlike (consumeContent g).1 (consumeContent h).1 ∧
      (consumeContent h).2 = (consumeContent g).2 := by
  have hp := hgh.parser
  have hremaining := hp.remaining hst
  have hleft := hp.setRemaining
    (g.parser.bytesContentRemaining - min g.unread.length g.parser.bytesContentRemaining)
  unfold consumeContent
  dsimp only
  rw [hremaining, hgh.unread, hp.chunks.handler]
  split
  · exact ⟨hgh, rfl⟩
  · cases g.parser.payloadHandler with
    | none =>
      refine ⟨⟨hleft.accountContent _, ?_, hgh.ec, rfl⟩, rfl⟩
      dsimp only
      rw [hgh.msg]
      exact storeContent_alike hp.chunks hp.contentRead _ _
    | some k =>
      have hdeliver := deliver_alike hp.chunks k
        (g.unread.take (min g.unread.length g.parser.bytesContentRemaining))
      dsimp only
      generalize g.parser.deliver k _ = a, h.parser.deliver k _ = b at hdeliver ⊢
      cases hdeliver with
      | none => exact ⟨⟨hleft, hgh.msg, hgh.ec, rfl⟩, rfl⟩
      | some hq => exact ⟨⟨(hleft.withChunks hq).accountContent _, hgh.msg, hgh.ec, rfl⟩, rfl⟩

theorem consumeContentAsNextChunk_alike {g h : Progress} (hgh : ProgressAlike g h) :
    ProgressAlike (consumeContentAsNextChunk g).1 (consumeContentAsNextChunk h).1 ∧
      (consumeContentAsNextChunk h).2 = (consumeContentAsNextChunk g).2 := by
  have hp := hgh.parser
  have hlast := hp.setLast g.unread.length
  unfold consumeContentAsNextChunk
  dsimp only
  rw [hgh.unread, hp.chunks.handler, hp.chunks.limit, hgh.msg]
  split
  · exact ⟨⟨hlast, rfl, hgh.ec, rfl⟩, rfl⟩
  · cases g.parser.payloadHandler with
    | none => exact ⟨⟨hlast.accountContent _, rfl, hgh.ec, rfl⟩, rfl⟩
    | some k =>
      have hdeliver := deliver_alike hp.chunks k g.unread
      dsimp only
      generalize g.parser.deliver k _ = a, h.parser.deliver k _ = b at hdeliver ⊢
      cases hdeliver with
      | none => exact ⟨⟨hlast, rfl, hgh.ec, rfl⟩, rfl⟩
      | some hq => exact ⟨⟨(hlast.withChunks hq).accountContent _, rfl, hgh.ec, rfl⟩, rfl⟩

/-! ## The end of the headers -/

theorem HeadersAlike.requestLine {p q : HeaderFields} (h : HeadersAlike p q) :
    q.method = p.method ∧ q.resource = p.resource ∧ q.queryString = p.queryString := by
  rw [h.eq]
  exact ⟨rfl, rfl, rfl⟩

theorem updateMessage_alike {p q : HttpParser} (h : ParsersAlike p q) (m : HttpRequest) :
    updateMessageWithHeaderData x q m = updateMessageWithHeaderData x p m := by
  obtain ⟨h1, h2, h3⟩ := h.headers.requestLine
  unfold updateMessageWithHeaderData
  rw [h1, h2, h3]

theorem decideFraming_alike {p q : HttpParser} (h : ParsersAlike p q)
    (hremaining : q.bytesContentRemaining = p.bytesContentRemaining) (m : HttpRequest) :
    Option.Rel (fun a b => ParsersAlike a.1 b.1 ∧ b.2 = a.2) (decideFraming x p m)
      (decideFraming x q m) := by
  have hset : ∀ st n, ParsersAlike { p with messageParseState := st, bytesContentRemaining := n }
      { q with messageParseState := st, bytesContentRemaining := n,
               parseHeadersOnly := p.parseHeadersOnly } :=
    fun st n => ⟨h.headers, h.chunks, rfl, fun _ => rfl, h.contentRead, h.lastRead, h.totalRead, rfl⟩
  have hmove : ∀ st, ParsersAlike { p with messageParseState := st }
      { q with messageParseState := st, parseHeadersOnly := p.parseHeadersOnly } :=
    fun st => ⟨h.headers, h.chunks, rfl, fun _ => hremaining, h.contentRead, h.lastRead, h.totalRead,
      rfl⟩
  unfold decideFraming
  rw [h.headersOnly]
  split
  · exact .some ⟨hmove .chunks, rfl⟩
  · split
    · split
      · exact .none
      · dsimp only
        rw [h.chunks.limit]
        split
        · exact .some ⟨hmove .end, rfl⟩
        · split
          · exact .some ⟨hset _ _, rfl⟩
          · exact .some ⟨hset _ _, rfl⟩
    · exact .some ⟨hmove .end, rfl⟩

theorem finishHeaderParsing_alike (hook : Hook) {g h : Progress} (hgh : ProgressAlike g h) :
    ProgressAlike (finishHeaderParsing x hook g).1 (finishHeaderParsing x hook h).1 ∧
      (finishHeaderParsing x hook h).2 = (finishHeaderParsing x hook g).2 := by
  have hp := hgh.parser
  have hbefore : ParsersAlike (beforeFraming x g.parser g.msg).1 (beforeFraming x h.parser h.msg).1 :=
    ⟨hp.headers, hp.chunks, hp.messageParseState, fun _ => rfl, rfl, hp.lastRead, hp.totalRead,
      hp.headersOnly⟩
  have hmsg : (beforeFraming x h.parser h.msg).2 = (beforeFraming x g.parser g.msg).2 := by
    unfold beforeFraming
    rw [hgh.msg]
    exact updateMessage_alike hp _
  have hframing := decideFraming_alike (x := x) hbefore rfl (beforeFraming x g.parser g.msg).2
  simp only [finishHeaderParsing_eq]
  rw [hmsg, hgh.ec]
  generalize decideFraming x (beforeFraming x g.parser g.msg).1 _ = a,
    decideFraming x (beforeFraming x h.parser h.msg).1 _ = b at hframing ⊢
  cases hframing with
  | none => exact ⟨⟨hbefore, rfl, rfl, hgh.unread⟩, rfl⟩
  | @some a b hab =>
    obtain ⟨p, m, rc⟩ := a
    obtain ⟨q, m', rc'⟩ := b
    obtain ⟨hpq, hrest⟩ := hab
    obtain ⟨rfl, rfl⟩ := Prod.mk.inj hrest
    dsimp only at hpq ⊢
    cases hook m' g.ec rc' with
    | error e => exact ⟨⟨hpq, rfl, rfl, hgh.unread⟩, rfl⟩
    | ok r =>
      refine ⟨⟨⟨hpq.headers, ?_, hpq.messageParseState, hpq.remaining, hpq.contentRead,
        hpq.lastRead, hpq.totalRead, hpq.headersOnly⟩, rfl, rfl, hgh.unread⟩, rfl⟩
      refine ⟨?_, hpq.chunks.size, hpq.chunks.counters⟩
      dsimp only
      rw [hpq.chunks.handler]
      exact congrArg (fun f : ChunkFields => { f with
        payloadHandler := r.payloadHandler <|> p.payloadHandler }) hpq.chunks.eq

/-! ## The loop -/

theorem finish_alike {p q : HttpParser} (h : ParsersAlike p q) (m : HttpRequest) :
    finish x q m = finish x p m := by
  unfold finish
  simp only [h.messageParseState, h.chunks.handler, h.headersOnly, h.contentRead, h.chunks.limit,
    h.chunks.state, updateMessage_alike h]

theorem parseHeadersCase_alike {hook : Hook} {g h : Progress} (hgh : ProgressAlike g h) (t : Nat) :
    ProgressAlike (parseHeadersCase x hook g t).1 (parseHeadersCase x hook h t).1 ∧
      (parseHeadersCase x hook h t).2 = (parseHeadersCase x hook g t).2 := by
  obtain ⟨hread, hrc⟩ := parseHeaders_alike (x := x) hgh
  obtain ⟨hfinish, hfrc⟩ := finishHeaderParsing_alike (x := x) hook hread
  unfold parseHeadersCase
  dsimp only
  rw [hrc, hread.parser.messageParseState, hread.parser.lastRead]
  split
  · rw [hfrc]
    exact ⟨hfinish, rfl⟩
  · exact ⟨hread, rfl⟩

theorem parseChunksCase_alike {g h : Progress} (hgh : ProgressAlike g h) (t : Nat) :
    ProgressAlike (parseChunksCase g t).1 (parseChunksCase h t).1 ∧
      (parseChunksCase h t).2 = (parseChunksCase g t).2 := by
  obtain ⟨hread, hrc⟩ := parseChunks_alike hgh
  unfold parseChunksCase
  dsimp only
  rw [hrc]
  cases (parseChunks g).2 with
  | none => exact ⟨hread, rfl⟩
  | some rc =>
    dsimp only
    rw [hread.parser.chunks.handler, hread.parser.lastRead, hread.parser.messageParseState]
    split
    · refine ⟨⟨hread.parser, ?_, hread.ec, hread.unread⟩, rfl⟩
      dsimp only
      rw [hread.msg]
    · exact ⟨hread, rfl⟩

theorem parseSwitch_alike (hook : Hook) {g h : Progress} (hgh : ProgressAlike g h) (t : Nat) :
    ProgressAlike (parseSwitch x hook g t).1 (parseSwitch x hook h t).1 ∧
      (parseSwitch x hook h t).2 = (parseSwitch x hook g t).2 := by
  have hp := hgh.parser
  unfold parseSwitch
  rw [hp.messageParseState]
  cases hst : g.parser.messageParseState <;> dsimp only
  case start =>
    refine parseHeadersCase_alike ?_ t
    exact ⟨⟨hp.headers, hp.chunks, rfl, fun h => (by cases h), hp.contentRead, hp.lastRead,
      hp.totalRead, hp.headersOnly⟩, hgh.msg, hgh.ec, hgh.unread⟩
  case headers => exact parseHeadersCase_alike hgh t
  case footers => exact parseHeadersCase_alike hgh t
  case chunks => exact parseChunksCase_alike hgh t
  case content =>
    obtain ⟨hread, hrc⟩ := consumeContent_alike hgh hst
    rw [hrc, hread.parser.lastRead]
    cases (consumeContent g).2 with
    | none => exact ⟨hread, rfl⟩
    | some rc => exact ⟨hread, rfl⟩
  case contentNoLength =>
    obtain ⟨hread, hrc⟩ := consumeContentAsNextChunk_alike hgh
    rw [hrc, hread.parser.lastRead]
    cases (consumeContentAsNextChunk g).2 with
    | none => exact ⟨hread, rfl⟩
    | some rc => exact ⟨hread, rfl⟩
  case «end» => exact ⟨hgh, rfl⟩

theorem parseLoop_alike (hook : Hook) : ∀ (n : Nat) {g h : Progress} (t : Nat), ProgressAlike g h →
    ProgressAlike (parseLoop x hook n g t).1 (parseLoop x hook n h t).1 ∧
      (parseLoop x hook n h t).2 = (parseLoop x hook n g t).2 := by
  intro n
  induction n with
  | zero => exact fun t hgh => ⟨hgh, rfl⟩
  | succ n ih =>
    intro g h t hgh
    obtain ⟨hpass, hres⟩ := parseSwitch_alike (x := x) hook hgh t
    rw [parseLoop, parseLoop]
    rcases hg : parseSwitch x hook g t with ⟨g', t', rc⟩
    rcases hh : parseSwitch x hook h t with ⟨h', r⟩
    rw [hg, hh] at hpass hres
    dsimp only at hpass hres
    subst hres
    rcases rc with e | b
    · exact ⟨hpass, rfl⟩
    cases b with
    | true => exact ⟨hpass, rfl⟩
    | false => exact ⟨hpass, rfl⟩
    | indeterminate =>
      dsimp only
      rw [hpass.unread]
      split
      · exact ⟨hpass, rfl⟩
      · exact ih t' hpass

theorem parseEnd_alike {g h : Progress} (hgh : ProgressAlike g h) (t : Nat) (rc : Except Exn Tribool) :
    ProgressAlike (parseEnd x g t rc).toProgress (parseEnd x h t rc).toProgress ∧
      (parseEnd x h t rc).rc = (parseEnd x g t rc).rc := by
  have hp := hgh.parser
  have hcount : ∀ {p q : HttpParser}, ParsersAlike p q →
      ParsersAlike { p with bytesLastRead := t } { q with bytesLastRead := t } :=
    fun h => ⟨h.headers, h.chunks, h.messageParseState, h.remaining, h.contentRead, rfl, h.totalRead,
      h.headersOnly⟩
  have hended : ParsersAlike { g.parser with messageParseState := .end }
      { h.parser with messageParseState := .end } :=
    ⟨hp.headers, hp.chunks, rfl, fun h => (by cases h), hp.contentRead, hp.lastRead, hp.totalRead,
      hp.headersOnly⟩
  unfold parseEnd
  rcases rc with e | b
  · exact ⟨hgh, rfl⟩
  cases b with
  | true =>
    dsimp only
    rw [hgh.msg, finish_alike hended]
    rcases finish x { g.parser with messageParseState := .end } g.msg with ⟨m, e⟩
    cases e with
    | none => exact ⟨⟨hcount hended, rfl, hgh.ec, hgh.unread⟩, rfl⟩
    | some e => exact ⟨⟨hended, rfl, hgh.ec, hgh.unread⟩, rfl⟩
  | false =>
    refine ⟨⟨hcount hp, ?_, hgh.ec, hgh.unread⟩, rfl⟩
    dsimp only
    rw [hgh.msg]
  | indeterminate => exact ⟨⟨hcount hp, hgh.msg, hgh.ec, hgh.unread⟩, rfl⟩

/-- **A call of `parse` does the same with parsers that are alike.** -/
theorem parse_alike (hook : Hook) {p q : HttpParser} (hpq : ParsersAlike p q) (m : HttpRequest)
    (ec : Option ErrorValue) (buf : Bytes) :
    ProgressAlike (parse x hook p m ec buf).toProgress (parse x hook q m ec buf).toProgress ∧
      (parse x hook q m ec buf).rc = (parse x hook p m ec buf).rc := by
  have hopened : ProgressAlike (opened p m ec buf) (opened q m ec buf) := ⟨hpq, rfl, rfl, rfl⟩
  obtain ⟨hloop, hres⟩ := parseLoop_alike (x := x) hook 3 0 hopened
  rcases hg : parseLoop x hook 3 (opened p m ec buf) 0 with ⟨g, t, rc⟩
  rcases hh : parseLoop x hook 3 (opened q m ec buf) 0 with ⟨h, r⟩
  rw [hg, hh] at hloop hres
  dsimp only at hloop hres
  subst hres
  rw [parse_of_loop hg, parse_of_loop hh]
  exact parseEnd_alike hloop t rc

theorem afterCalls_alike (calls : List ParseCall) : ∀ {p q : HttpParser} (m : HttpRequest),
    ParsersAlike p q →
    ParsersAlike (afterCalls x (p, m) calls).1 (afterCalls x (q, m) calls).1 ∧
      (afterCalls x (q, m) calls).2 = (afterCalls x (p, m) calls).2 := by
  induction calls with
  | nil => exact fun m hpq => ⟨hpq, rfl⟩
  | cons c cs ih =>
    intro p q m hpq
    obtain ⟨hcall, _⟩ := parse_alike (x := x) c.hook hpq m c.ec c.buf
    have hrest := ih (parse x c.hook p m c.ec c.buf).msg hcall.parser
    unfold afterCalls ParseCall.result at hrest ⊢
    rw [List.foldl_cons, List.foldl_cons]
    dsimp only at hrest ⊢
    rw [hcall.msg]
    exact hrest

/-! ## `reset` -/

/-- What a caller can see of a call of `parse`: its result, the error code, the message, the
bytes left unread, the three counters, the raw headers, and what the payload handler has been
given. -/
structure Seen where
  rc : Except Exn Tribool
  ec : Option ErrorValue
  msg : HttpRequest
  unread : Bytes
  bytesLastRead : Nat
  bytesTotalRead : Nat
  bytesContentRead : Nat
  rawHeaders : Bytes
  delivered : Bytes

def ParseResult.seen (r : ParseResult) : Seen where
  rc := r.rc
  ec := r.ec
  msg := r.msg
  unread := r.unread
  bytesLastRead := r.parser.bytesLastRead
  bytesTotalRead := r.parser.bytesTotalRead
  bytesContentRead := r.parser.bytesContentRead
  rawHeaders := r.parser.rawHeaders
  delivered := r.parser.delivered

theorem reset_alike (p : HttpParser) (sizeGarbage readGarbage : Nat) :
    ParsersAlike p.reset (p.settings.parser sizeGarbage readGarbage) :=
  ⟨⟨rfl, False.elim, False.elim⟩, ⟨rfl, False.elim, fun h => (by cases h)⟩, rfl,
    fun h => (by cases h), rfl, rfl, rfl, rfl⟩

/-- **A parser that has been reset is as good as a new one** with its settings: whatever state
it was in, no call of `parse` from then on can tell the two apart. -/
theorem reset_like_new (p : HttpParser) (m : HttpRequest) (sizeGarbage readGarbage : Nat)
    (calls : List ParseCall) (c : ParseCall) :
    ParseResult.seen (c.result x (afterCalls x (p.reset, m) calls)) =
      ParseResult.seen
        (c.result x (afterCalls x (p.settings.parser sizeGarbage readGarbage, m) calls)) := by
  obtain ⟨hparser, hmsg⟩ := afterCalls_alike (x := x) calls m (reset_alike p sizeGarbage readGarbage)
  generalize afterCalls x (p.reset, m) calls = s, afterCalls x (p.settings.parser _ _, m) calls = t
    at hparser hmsg ⊢
  obtain ⟨used, m⟩ := s
  obtain ⟨new, m'⟩ := t
  obtain rfl : m' = m := hmsg
  obtain ⟨hcall, hrc⟩ := parse_alike (x := x) c.hook hparser m' c.ec c.buf
  have hraw := congrArg HeaderFields.rawHeaders hcall.parser.headers.eq
  have hgiven := congrArg ChunkFields.delivered hcall.parser.chunks.eq
  unfold ParseResult.seen ParseCall.result
  dsimp only at hraw hgiven ⊢
  rw [hrc, hcall.ec, hcall.msg, hcall.unread, hcall.parser.lastRead, hcall.parser.totalRead,
    hcall.parser.contentRead, hraw, hgiven]

end Pion.Proof
