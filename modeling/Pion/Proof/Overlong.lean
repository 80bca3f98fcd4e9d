import Pion.Proof.Chunked

/-!
# Chunked bodies over the limit

Without a payload handler, the chunk loop stores a byte of a chunk and counts it in one
branch, which is taken only while the chunk cache has room. A byte over the limit is not
counted either, so the chunk that it belongs to never ends: the loop drops every byte from
there on, the rest of the body and whatever follows it, and goes on waiting.

A body over the limit is therefore never cut off at the limit, as a body with a content
length is. `overlong_not_cutOff` says so for every such body.
-/

namespace Pion.Proof

open Pion Lib

variable {x : Externals} {hook : Hook}

/-- Inside a chunk, without a payload handler, and with a full chunk cache. -/
structure Stuck (s : ChunkState) : Prop where
  state : s.1.chunkedContentParseState = .chunk
  handler : s.1.payloadHandler = none
  full : s.1.maxContentLength ≤ s.2.length
  inside : s.1.bytesReadInCurrentChunk < s.1.sizeOfCurrentChunk

/-- A byte that does not fit changes nothing. -/
theorem Stuck.step {s : ChunkState} (h : Stuck s) (c : UInt8) (cs : Bytes) :
    chunkScanner.step s c cs = .next s cs := by
  show chunkStep s c cs = _
  rw [chunkStep_chunk h.state]
  unfold chunkData
  dsimp only
  rw [if_pos h.inside, h.handler]
  dsimp only
  rw [if_neg (Nat.not_lt.mpr h.full), endOfChunk_read_lt h.inside]

/-- **A stuck loop swallows everything.** -/
theorem Stuck.run {s : ChunkState} (h : Stuck s) (buf : Bytes) : chunkScanner.run s buf = .more s := by
  induction buf with
  | nil => exact chunkScanner.run_nil s
  | cons c cs ih => rw [chunkScanner.run_cons_next (h.step c cs), ih]

/-- The chunk in which the cache fills up is never left. -/
theorem readChunk_stuck {s : ChunkState} (hk : s.1.payloadHandler = none) {c : Chunk} (hc : c.Ok)
    (hle : s.2.length ≤ s.1.maxContentLength)
    (hover : s.1.maxContentLength < s.2.length + c.data.length) (rest : Bytes) :
    ∃ t, Stuck t ∧ t.2 = (s.2 ++ c.data).take s.1.maxContentLength ∧
      chunkScanner.run (atChunk s) (c.text ++ rest) = .more t := by
  let s₁ : ChunkState := ({ s.1 with chunkSizeStr := c.digits }, s.2)
  let room := s.1.maxContentLength - s.2.length
  let u := c.data.take room
  have hu : u.length = room := List.length_take_of_le (by dsimp only [room]; omega)
  have hlt : u.length < c.data.length := by
    rw [hu]
    dsimp only [room]
    omega
  have hfull : s.2.length + u.length = s.1.maxContentLength := by
    rw [hu]
    dsimp only [room]
    omega
  have hline := readChunkLine s.1 s.2 hc.line (c.data ++ (stringCrlf ++ rest))
  rw [if_neg (fun h => hc.data_ne (List.eq_nil_of_length_eq_zero h))] at hline
  have hstuck : Stuck (partway s₁ c.data.length u) := by
    refine ⟨rfl, hk, ?_, hlt⟩
    show s.1.maxContentLength ≤ (s.2 ++ u).length
    rw [List.length_append]
    omega
  have hspan := readSpan_cache (s := s₁) hk (List.length_pos_iff.mpr hc.data_ne) (Nat.le_of_lt hlt)
    (Nat.le_of_eq hfull) (c.data.drop room ++ (stringCrlf ++ rest))
  rw [partway_lt hlt, hstuck.run, ← List.append_assoc, List.take_append_drop] at hspan
  refine ⟨partway s₁ c.data.length u, hstuck, ?_, ?_⟩
  · show s.2 ++ u = _
    rw [List.take_append, List.take_of_length_le hle]
  · unfold Chunk.text
    rw [List.append_assoc, List.append_assoc]
    exact hline.trans hspan

/-- **Chunks that do not fit are not left**, and the cache holds what fits of them. -/
theorem readChunks_stuck : ∀ (cs : List Chunk) (s : ChunkState), (∀ c ∈ cs, c.Ok) →
    s.1.payloadHandler = none → s.2.length ≤ s.1.maxContentLength →
    s.1.maxContentLength < s.2.length + (cs.map Chunk.data).flatten.length → ∀ rest : Bytes,
    ∃ t, Stuck t ∧ t.2 = (s.2 ++ (cs.map Chunk.data).flatten).take s.1.maxContentLength ∧
      chunkScanner.run (atChunk s) ((cs.map Chunk.text).flatten ++ rest) = .more t := by
  intro cs
  induction cs with
  | nil =>
    intro s _ _ hle hover
    rw [List.map_nil, List.flatten_nil, List.length_nil] at hover
    omega
  | cons c cs ih =>
    intro s hcs hk hle hover rest
    rw [List.map_cons, List.flatten_cons, List.length_append] at hover
    rw [List.map_cons, List.flatten_cons, List.map_cons, List.flatten_cons, List.append_assoc]
    have hc := hcs c List.mem_cons_self
    by_cases hfit : s.2.length + c.data.length ≤ s.1.maxContentLength
    · -- this chunk fits
      have habs := absorbed_behindChunk s c
      have hcache : (behindChunk s c).2 = s.2 ++ c.data := by rw [habs.cache, absorb_cache hk]
      have hmax : (behindChunk s c).1.maxContentLength = s.1.maxContentLength := habs.frame.2
      obtain ⟨t, ht, hstored, hrun⟩ := ih (behindChunk s c)
        (fun d hd => hcs d (List.mem_cons_of_mem c hd)) (habs.frame.1.trans hk)
        (by rw [hcache, hmax, List.length_append]; exact hfit)
        (by rw [hcache, hmax, List.length_append]; omega) rest
      refine ⟨t, ht, ?_, ?_⟩
      · rw [hstored, hcache, hmax, List.append_assoc]
      · rw [readChunk (calm_none hk) hc (fun _ => hfit)]
        exact hrun
    · obtain ⟨t, ht, hstored, hrun⟩ := readChunk_stuck hk hc hle (Nat.not_le.mp hfit)
        ((cs.map Chunk.text).flatten ++ rest)
      refine ⟨t, ht, ?_, hrun⟩
      have hlen : s.1.maxContentLength ≤ (s.2 ++ c.data).length := by
        rw [List.length_append]
        omega
      rw [hstored, ← List.append_assoc, List.take_append_of_le_length hlen]

/-! ## Calls of `parse` -/

/-- A call that ends inside the chunks. -/
theorem parse_chunks_more (hook : Hook) {p : HttpParser} {m : HttpRequest}
    (hst : p.messageParseState = .chunks) {buf : Bytes} {s : ChunkState}
    (h : chunkScanner.run (p.toChunkFields, m.chunkCache) buf = .more s) (ec : Option ErrorValue) :
    let r := parse x hook p m ec buf
    r.rc = .ok .indeterminate ∧ r.unread = [] ∧ r.parser.messageParseState = .chunks ∧
      (r.parser.toChunkFields, r.msg.chunkCache) = s := by
  have hcache : (opened p m ec buf).msg.chunkCache = m.chunkCache := by
    show (noteMissingPackets m).chunkCache = _
    rw [noteMissingPackets_frame]
  have hchunks : parseChunks (opened p m ec buf) = ({ opened p m ec buf with
      parser := { p with bytesLastRead := 0, toChunkFields := s.1 }.accountContent buf.length
      msg := { (opened p m ec buf).msg with chunkCache := s.2 }
      unread := [] }, some .indeterminate) := by
    unfold parseChunks
    dsimp only
    rw [hcache, show (opened p m ec buf).parser.toChunkFields = p.toChunkFields from rfl,
      show (opened p m ec buf).unread = buf from rfl, h]
    rfl
  have hpass : parseSwitch x hook (opened p m ec buf) 0 =
      ((parseChunks (opened p m ec buf)).1, 0 + (parseChunks (opened p m ec buf)).1.parser.bytesLastRead,
        .ok .indeterminate) := by
    rw [parseSwitch_chunks hst]
    unfold parseChunksCase
    rw [hchunks]
    rfl
  have hloop : parseLoop x hook 3 (opened p m ec buf) 0 =
      ((parseChunks (opened p m ec buf)).1, 0 + (parseChunks (opened p m ec buf)).1.parser.bytesLastRead,
        .ok .indeterminate) := by
    rw [parseLoop, hpass]
    dsimp only
    rw [hchunks]
    exact if_pos rfl
  rw [parse_of_loop hloop, hchunks]
  exact ⟨rfl, rfl, hst, rfl⟩

/-- However the bytes are split into buffers, the parser goes on waiting. -/
theorem feed_chunks_more (hook : Hook) : ∀ (bufs : List Bytes) (r : ParseResult) (s : ChunkState),
    r.rc = .ok .indeterminate → r.unread = [] → r.parser.messageParseState = .chunks →
    r.parser.payloadHandler = none →
    chunkScanner.run (r.parser.toChunkFields, r.msg.chunkCache) bufs.flatten = .more s →
    (feed x hook r bufs).rc = .ok .indeterminate ∧ (feed x hook r bufs).unread = [] ∧
      (feed x hook r bufs).msg.chunkCache = s.2 := by
  intro bufs
  induction bufs with
  | nil =>
    intro r s hrc hunread _ _ hrun
    rw [List.flatten_nil, Scanner.run_nil] at hrun
    injection hrun with hrun
    exact ⟨hrc, hunread, congrArg Prod.snd hrun⟩
  | cons b bs ih =>
    intro r s hrc hunread hst hk hrun
    rw [List.flatten_cons, chunkScanner_append (calm_none hk)] at hrun
    rcases hb : chunkScanner.run (r.parser.toChunkFields, r.msg.chunkCache) b with s₁ | ⟨o, s₁, rest⟩
    · rw [hb] at hrun
      obtain ⟨hrc₁, hunread₁, hst₁, hs₁⟩ := parse_chunks_more (x := x) hook hst hb r.ec
      have hframe : ChunkFrame r.parser.toChunkFields s₁.1 := chunkScanner_more_frame hb
      rw [feed, if_pos hrc]
      refine ih _ s hrc₁ hunread₁ hst₁ ?_ (by rw [hs₁]; exact hrun)
      rw [show (parse x hook r.parser r.msg r.ec b).parser.payloadHandler = s₁.1.payloadHandler from
        congrArg (fun t : ChunkState => t.1.payloadHandler) hs₁, hframe.1, hk]
    · rw [hb] at hrun
      cases hrun

/-! ## The limit -/

/-- The body has been cut off at the limit: `parse` returned true at its end, and the content
is as much of the data as the limit allows. -/
structure CutOff (limit : Nat) (b : ChunkedBody) (rest : Bytes) (r : ParseResult) : Prop where
  rc : r.rc = .ok .true
  unread : r.unread = rest
  content : r.msg.content = b.data.take limit

/-- What becomes of a chunked body over the limit: all of it and all that follows is read,
and the parser waits for more. -/
theorem overlong_swallowed {p : HttpParser} {m : HttpRequest} (hw : AwaitingChunks p m)
    {b : ChunkedBody} (hb : b.Ok) (hover : p.maxContentLength < b.data.length)
    (ec : Option ErrorValue) {bufs : List Bytes} {rest : Bytes} (hbufs : bufs.flatten = b.text ++ rest) :
    (feed x hook (waitingWith p m ec) bufs).rc = .ok .indeterminate ∧
      (feed x hook (waitingWith p m ec) bufs).unread = [] ∧
      (feed x hook (waitingWith p m ec) bufs).msg.chunkCache = b.data.take p.maxContentLength := by
  let s : ChunkState := (p.toChunkFields, [])
  obtain ⟨t, _, hstored, hrun⟩ := readChunks_stuck b.chunks s hb.chunks hw.handler (Nat.zero_le _)
    (by show p.maxContentLength < 0 + b.data.length; omega)
    (b.last.text ++ (headerText b.trailers ++ stringCrlf) ++ rest)
  have htext : (b.chunks.map Chunk.text).flatten ++
      (b.last.text ++ (headerText b.trailers ++ stringCrlf) ++ rest) = bufs.flatten := by
    rw [hbufs]
    unfold ChunkedBody.text ChunkedBody.chunkText
    simp
  have hs : atChunk s = (p.toChunkFields, m.chunkCache) := by
    rw [atChunk_self (s := s) hw.chunkState, hw.cache]
  rw [htext, hs] at hrun
  obtain ⟨hrc, hunread, hcache⟩ := feed_chunks_more (x := x) hook bufs (waitingWith p m ec) t
    rfl rfl hw.state hw.handler hrun
  exact ⟨hrc, hunread, hcache.trans hstored⟩

/-- **No chunked body over the limit is cut off at the limit**, whatever its chunks are,
however it is split into buffers and whatever follows it. -/
theorem overlong_not_cutOff (p : HttpParser) (m : HttpRequest) (hw : AwaitingChunks p m)
    (b : ChunkedBody) (hb : b.Ok) (hover : p.maxContentLength < b.data.length)
    (ec : Option ErrorValue) (bufs : List Bytes) (rest : Bytes) (hbufs : bufs.flatten = b.text ++ rest) :
    ¬ CutOff p.maxContentLength b rest (feed x hook (waitingWith p m ec) bufs) := by
  intro h
  have hrc := h.rc
  rw [(overlong_swallowed hw hb hover ec hbufs).1] at hrc
  cases hrc

/-- A parser with room for two bytes. -/
def smallParser : HttpParser := { HttpParser.fresh 2 0 0 with messageParseState := .chunks }

/-- One chunk of three bytes. -/
def threeBytes : ChunkedBody where
  chunks := [{ digits := str "3", data := str "abc" }]
  last := { digits := str "0" }

theorem threeBytes_ok : threeBytes.Ok := by decide +kernel

theorem overlong_not_cutOff_split :
    ¬ CutOff 2 threeBytes (str "GET") (feed plainExternals noHook
      (waitingWith smallParser HttpRequest.fresh none) [str "3\r\nab", str "c\r\n0\r\n\r\nGET"]) :=
  overlong_not_cutOff smallParser HttpRequest.fresh ⟨rfl, rfl, rfl, rfl, by decide⟩ threeBytes
    threeBytes_ok (by decide) none _ (str "GET") (by decide +kernel)

/-- In front of the body, the parser is as it should be; behind it, it is not. -/
theorem cutOff_threeBytes :
    AwaitingChunks smallParser HttpRequest.fresh ∧ threeBytes.Ok ∧
      smallParser.maxContentLength < threeBytes.data.length ∧
      ¬ CutOff smallParser.maxContentLength threeBytes [] (feed plainExternals noHook
        (waitingWith smallParser HttpRequest.fresh none) [threeBytes.text]) := by
  refine ⟨⟨rfl, rfl, rfl, rfl, by decide⟩, threeBytes_ok, by decide, fun h => ?_⟩
  exact absurd h.rc (by decide +kernel)

end Pion.Proof
