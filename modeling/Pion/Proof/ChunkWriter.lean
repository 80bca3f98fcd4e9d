import Pion.HttpResponseWriter
import Pion.Proof.Chunked
import Pion.Proof.Dictionary
import Pion.Proof.RoundTrip

/-!
# What the writer sends in chunks, the parser reads

A streamed response is a run of rounds: clear the writer, write some data, send a
chunk; the last round sends the final chunk. `writer_roundTrip` follows such a run
through all its sends. Behind one header block, the bytes are a chunked body that
`parse_chunks` accepts to the last byte, and that decodes to everything that was
written.

A round without data must send nothing at all, since a chunk of size zero would
end the body. So the chunks are those of the rounds that wrote something.
-/

namespace Pion.Proof

open Pion Lib

variable {x : Externals}

/-! ## Rounds -/

/-- A call that adds content. -/
inductive Write where
  | write (data : Bytes)
  | writeNocopy (data : Bytes)

def Write.data : Write → Bytes
  | .write data => data
  | .writeNocopy data => data

def Write.perform (w : HttpResponseWriter) : Write → HttpResponseWriter
  | .write data => w.write data
  | .writeNocopy data => w.writeNocopy data

/-- What is written in a round. -/
def written (ws : List Write) : Bytes := (ws.map Write.data).flatten

/-- `clear`, and then the writes of a round. -/
def fill (w : HttpResponseWriter) (ws : List Write) : HttpResponseWriter :=
  ws.foldl Write.perform w.clear

/-- The sends of a whole run: a chunk for each round, and the final chunk with the last. -/
def sends (x : Externals) : HttpResponseWriter → List (List Write) → List Write → List Send
  | w, [], last => [((fill w last).sendFinalChunk x).2]
  | w, r :: rs, last => ((fill w r).sendChunk x).2 :: sends x ((fill w r).sendChunk x).1 rs last

/-- The writer can stream: its connection is open, its client takes chunks and a body. -/
structure Streaming (w : HttpResponseWriter) : Prop where
  isOpen : w.tcpConn.isOpen = true
  chunks : w.clientSupportsChunks = true
  supported : w.response.chunksSupported = true
  body : w.response.isBodyAllowed = true

/-! ## Filling the writer -/

theorem perform_eq {w : HttpResponseWriter} (h : w.response.isBodyAllowed = true) (a : Write) :
    ∃ bufs, bufs.flatten = a.data ∧ a.perform w = { w with
      contentBuffers := w.contentBuffers ++ bufs
      contentLength := w.contentLength + a.data.length } := by
  have hwrite : ∀ data, ∃ bufs : List Bytes, bufs.flatten = data ∧ w.write data = { w with
      contentBuffers := w.contentBuffers ++ bufs
      contentLength := w.contentLength + data.length } := by
    intro data
    unfold HttpResponseWriter.write
    by_cases hd : data = []
    · subst hd
      exact ⟨[], rfl, by rw [if_neg (fun hn => absurd hn.2 (Nat.lt_irrefl 0)), List.append_nil]; rfl⟩
    · exact ⟨[data], by simp, by rw [if_pos ⟨h, List.length_pos_iff.mpr hd⟩]⟩
  cases a with
  | write data => exact hwrite data
  | writeNocopy data => exact hwrite data

theorem performAll_eq : ∀ (ws : List Write) (w : HttpResponseWriter), w.response.isBodyAllowed = true →
    ∃ bufs, bufs.flatten = written ws ∧ ws.foldl Write.perform w = { w with
      contentBuffers := w.contentBuffers ++ bufs
      contentLength := w.contentLength + (written ws).length } := by
  intro ws
  induction ws with
  | nil => intro w _; exact ⟨[], rfl, by rw [List.append_nil]; rfl⟩
  | cons a ws ih =>
    intro w h
    obtain ⟨b₁, h₁, e₁⟩ := perform_eq h a
    obtain ⟨b₂, h₂, e₂⟩ := ih (a.perform w) (by rw [e₁]; exact h)
    refine ⟨b₁ ++ b₂, ?_, ?_⟩
    · unfold written at h₂ ⊢
      rw [List.flatten_append, h₁, h₂, List.map_cons, List.flatten_cons]
    · rw [List.foldl_cons, e₂, e₁]
      unfold written
      simp only [List.map_cons, List.flatten_cons, List.length_append, List.append_assoc, Nat.add_assoc]

/-- A filled writer holds what was written in the round, and nothing else has changed. -/
theorem fill_eq {w : HttpResponseWriter} (h : w.response.isBodyAllowed = true) (ws : List Write) :
    ∃ bufs, bufs.flatten = written ws ∧
      fill w ws = { w with contentBuffers := bufs, contentLength := (written ws).length } := by
  obtain ⟨bufs, h₁, h₂⟩ := performAll_eq ws w.clear h
  refine ⟨bufs, h₁, ?_⟩
  unfold fill
  rw [h₂]
  unfold HttpResponseWriter.clear
  rw [List.nil_append, Nat.zero_add]

/-! ## One send -/

/-- The chunk of a round: nothing for no data. -/
def encodeChunk (data : Bytes) : Bytes :=
  if data = [] then [] else toText 16 data.length ++ (stringCrlf ++ (data ++ stringCrlf))

/-- The header block that the next send begins with, if it is the first. -/
def headerBlock (x : Externals) (w : HttpResponseWriter) (ws : List Write) : HttpResponse × List Bytes :=
  let p := { fill w ws with sendingChunks := true }.prepareBuffersForSend x
  (p.1.response, p.2)

/-- The final chunk. -/
def finalChunk : Bytes := str "0" ++ (stringCrlf ++ stringCrlf)

/-- What stands behind the header block, for a writer that is sending chunks. -/
theorem contentWriteBuffers_flatten {w : HttpResponseWriter} (hs : w.sendingChunks = true)
    (hc : w.clientSupportsChunks = true) (hlen : w.contentLength = w.contentBuffers.flatten.length)
    (final : Bool) :
    (w.contentWriteBuffers final).flatten =
      encodeChunk w.contentBuffers.flatten ++ (if final then finalChunk else []) := by
  unfold HttpResponseWriter.contentWriteBuffers
  dsimp only
  rw [hs, hc, List.flatten_append]
  congr 1
  · unfold encodeChunk HttpResponseWriter.chunkLength
    rw [hlen]
    by_cases hne : w.contentBuffers.flatten = []
    · rw [if_neg (by rw [hne]; exact Nat.lt_irrefl 0), if_pos hne]
      rfl
    · rw [if_pos (List.length_pos_iff.mpr hne), if_neg hne]
      simp
  · cases final <;> rfl

/-- The header block in front of a send: empty when it has been sent before. -/
def frontBytes (x : Externals) (w : HttpResponseWriter) (ws : List Write) : Bytes :=
  if w.sentHeaders then [] else (headerBlock x w ws).2.flatten

theorem prepareResponse_frame (w : HttpResponseWriter) :
    (w.prepareBuffersForSend x).1.response.requestMethod = w.response.requestMethod ∧
      (w.prepareBuffersForSend x).1.response.chunksSupported = w.response.chunksSupported := by
  unfold HttpResponseWriter.prepareBuffersForSend HttpResponse.prepareBuffersForSend
    HttpMessage.prepareBuffersForSend
  dsimp only
  rw [getFirstLine_frame, prepareHeadersForSend_frame]
  dsimp only
  split <;> exact ⟨rfl, rfl⟩

/-- **One send of a streaming writer.** -/
theorem sendMoreData_spec {w : HttpResponseWriter} (hw : Streaming w) (ws : List Write) (final : Bool) :
    let s := { fill w ws with sendingChunks := true }.sendMoreData x final
    s.2.bytes = frontBytes x w ws ++ encodeChunk (written ws) ++ (if final then finalChunk else []) ∧
      Streaming s.1 ∧ s.1.sentHeaders = true := by
  obtain ⟨bufs, hbufs, hfill⟩ := fill_eq hw.body ws
  let v : HttpResponseWriter := { w with
    contentBuffers := bufs, contentLength := (written ws).length, sendingChunks := true }
  have hv : { fill w ws with sendingChunks := true } = v := by rw [hfill]
  have hlen : v.contentLength = v.contentBuffers.flatten.length := by
    show (written ws).length = bufs.flatten.length
    rw [hbufs]
  have hcontent : ∀ v' : HttpResponseWriter, v'.sendingChunks = true → v'.clientSupportsChunks = true →
      v'.contentLength = v'.contentBuffers.flatten.length → v'.contentBuffers = bufs →
      (v'.contentWriteBuffers final).flatten =
        encodeChunk (written ws) ++ (if final then finalChunk else []) := by
    intro v' h1 h2 h3 h4
    rw [contentWriteBuffers_flatten h1 h2 h3, h4, hbufs]
  have hsend : v.sendMoreData x final =
      ((v.prepareWriteBuffers x final).1, .write (v.prepareWriteBuffers x final).2) := if_pos hw.isOpen
  -- only the first send has the header block in front
  unfold frontBytes headerBlock
  rw [hv, hsend]
  unfold HttpResponseWriter.prepareWriteBuffers
  cases hsent : w.sentHeaders with
  | true =>
    dsimp only
    rw [if_pos rfl, if_pos rfl, List.nil_append]
    exact ⟨hcontent v rfl hw.chunks hlen rfl, ⟨hw.isOpen, hw.chunks, hw.supported, hw.body⟩, hsent⟩
  | false =>
    obtain ⟨hmethod, hsupported⟩ := prepareResponse_frame (x := x) v
    dsimp only
    rw [if_neg Bool.false_ne_true, if_neg Bool.false_ne_true]
    refine ⟨?_, ⟨hw.isOpen, hw.chunks, hsupported.trans hw.supported, ?_⟩, rfl⟩
    · show ((v.prepareBuffersForSend x).2 ++ _).flatten = _
      rw [List.flatten_append, List.append_assoc,
        hcontent { (v.prepareBuffersForSend x).1 with sentHeaders := true } rfl hw.chunks hlen rfl]
    · have hbody := hw.body
      unfold HttpResponse.isBodyAllowed at hbody ⊢
      rw [show (v.prepareBuffersForSend x).1.response.requestMethod = _ from hmethod]
      exact hbody

/-! ## The whole run -/

/-- What the sends of a run put behind the header block. -/
def bodyBytes (rs : List (List Write)) (last : List Write) : Bytes :=
  (rs.map fun ws => encodeChunk (written ws)).flatten ++ (encodeChunk (written last) ++ finalChunk)

theorem sendChunk_eq {w : HttpResponseWriter} (hw : Streaming w) (ws : List Write) :
    (fill w ws).sendChunk x = { fill w ws with sendingChunks := true }.sendMoreData x false := by
  obtain ⟨bufs, _, hfill⟩ := fill_eq hw.body ws
  rw [hfill]
  unfold HttpResponseWriter.sendChunk
  dsimp only
  rw [if_pos hw.chunks, if_pos hw.isOpen]

/-- Once the headers have been sent, they are not sent again. -/
theorem sends_body : ∀ (rs : List (List Write)) (w : HttpResponseWriter) (last : List Write),
    Streaming w → w.sentHeaders = true →
    ((sends x w rs last).map Send.bytes).flatten = bodyBytes rs last := by
  intro rs
  induction rs with
  | nil =>
    intro w last hw hsent
    obtain ⟨hbytes, _, _⟩ := sendMoreData_spec (x := x) hw last true
    have hfront : frontBytes x w last = [] := if_pos hsent
    rw [hfront, List.nil_append] at hbytes
    unfold sends bodyBytes
    rw [List.map_singleton, List.flatten_singleton]
    exact hbytes
  | cons r rs ih =>
    intro w last hw hsent
    obtain ⟨hbytes, hw', hsent'⟩ := sendMoreData_spec (x := x) hw r false
    have hfront : frontBytes x w r = [] := if_pos hsent
    rw [hfront, List.nil_append] at hbytes
    have hrest := ih _ last hw' hsent'
    unfold sends
    rw [sendChunk_eq hw, List.map_cons, List.flatten_cons, hrest, hbytes]
    unfold bodyBytes
    rw [if_neg Bool.false_ne_true, List.append_nil, List.map_cons, List.flatten_cons, List.append_assoc]

/-- **The header block is sent once, in front of everything.** -/
theorem sends_eq {w : HttpResponseWriter} (hw : Streaming w) (hsent : w.sentHeaders = false)
    (rs : List (List Write)) (last : List Write) :
    ((sends x w rs last).map Send.bytes).flatten =
      (headerBlock x w ((rs ++ [last]).head (by simp))).2.flatten ++ bodyBytes rs last := by
  have hfront : ∀ ws, frontBytes x w ws = (headerBlock x w ws).2.flatten := by
    intro ws
    unfold frontBytes
    rw [hsent]
    rfl
  cases rs with
  | nil =>
    obtain ⟨hbytes, _, _⟩ := sendMoreData_spec (x := x) hw last true
    rw [hfront, List.append_assoc] at hbytes
    unfold sends bodyBytes
    rw [List.map_singleton, List.flatten_singleton]
    exact hbytes
  | cons r rs =>
    obtain ⟨hbytes, hw', hsent'⟩ := sendMoreData_spec (x := x) hw r false
    rw [hfront, if_neg Bool.false_ne_true, List.append_nil] at hbytes
    have hrest := sends_body (x := x) rs _ last hw' hsent'
    unfold sends
    rw [sendChunk_eq hw, List.map_cons, List.flatten_cons, hrest, hbytes]
    unfold bodyBytes
    rw [List.map_cons, List.flatten_cons]
    simp only [List.append_assoc]
    rfl

/-! ## The body is a chunked body -/

theorem isHexDigit_of_mem_toText {n : Nat} {c : UInt8} (h : c ∈ toText 16 n) : isHexDigit c = true := by
  obtain ⟨d, hd, rfl⟩ := mem_toText (by decide) h
  have hall : ∀ d, d < 16 → isHexDigit (UInt8.ofNat d.digitChar.toNat) = true := by decide
  exact hall d hd

/-- **A chunk size is read back.** -/
theorem hexNumber_toText (n : Nat) : hexNumber (toText 16 n) = n := by
  have hdigit : ∀ d, d < 16 → hexValue (UInt8.ofNat d.digitChar.toNat) = d := by decide
  unfold hexNumber toText
  rw [List.foldl_map]
  refine foldl_toDigits (e := id) (by decide) ?_ n
  intro k d hd
  rw [hdigit d hd]
  rfl

/-- The chunk that carries the data of a round, if there is any. -/
def chunkOf (data : Bytes) : List Chunk :=
  if data = [] then [] else [{ digits := toText 16 data.length, data := data }]

/-- The chunked body that a run sends. -/
def bodyOf (ds : List Bytes) : ChunkedBody :=
  { chunks := ds.flatMap chunkOf, last := { digits := str "0" } }

theorem chunkOf_ok {data : Bytes} (h : data.length < 2 ^ 63) : ∀ c ∈ chunkOf data, c.Ok := by
  intro c hc
  unfold chunkOf at hc
  split at hc
  · cases hc
  · rename_i hne
    rcases List.mem_singleton.mp hc with rfl
    exact ⟨⟨toText_ne_nil 16 _, fun c hc => isHexDigit_of_mem_toText hc, hexNumber_toText _, h,
      Or.inl (fun c hc => by cases hc)⟩, hne⟩

theorem zeroLine_ok : ({ digits := str "0" } : ChunkLine).Ok 0 := by decide +kernel

theorem bodyOf_ok {ds : List Bytes} (h : ∀ d ∈ ds, d.length < 2 ^ 63) : (bodyOf ds).Ok where
  chunks := by
    intro c hc
    obtain ⟨d, hd, hc⟩ := List.mem_flatMap.mp hc
    exact chunkOf_ok (h d hd) c hc
  last := zeroLine_ok
  trailers := by
    intro l hl
    cases hl

theorem chunkOf_text (data : Bytes) : ((chunkOf data).map Chunk.text).flatten = encodeChunk data := by
  unfold chunkOf encodeChunk
  split
  · rfl
  · unfold Chunk.text ChunkLine.text
    simp

theorem chunkOf_data (data : Bytes) : ((chunkOf data).map Chunk.data).flatten = data := by
  unfold chunkOf
  split
  · rename_i h
    exact h.symm
  · simp

theorem bodyOf_data (ds : List Bytes) : (bodyOf ds).data = ds.flatten := by
  show ((ds.flatMap chunkOf).map Chunk.data).flatten = ds.flatten
  induction ds with
  | nil => rfl
  | cons d ds ih =>
    rw [List.flatMap_cons, List.map_append, List.flatten_append, chunkOf_data, ih, List.flatten_cons]

theorem bodyOf_text (ds : List Bytes) :
    (bodyOf ds).text = (ds.map encodeChunk).flatten ++ finalChunk := by
  have hchunks : ((ds.flatMap chunkOf).map Chunk.text).flatten = (ds.map encodeChunk).flatten := by
    induction ds with
    | nil => rfl
    | cons d ds ih =>
      rw [List.flatMap_cons, List.map_append, List.flatten_append, chunkOf_text, ih, List.map_cons,
        List.flatten_cons]
  show ((ds.flatMap chunkOf).map Chunk.text).flatten ++ (str "0" ++ ([] ++ stringCrlf)) ++
    ([] ++ stringCrlf) = _
  rw [hchunks]
  unfold finalChunk
  simp

theorem bodyBytes_eq (rs : List (List Write)) (last : List Write) :
    bodyBytes rs last = (bodyOf ((rs ++ [last]).map written)).text := by
  rw [bodyOf_text]
  unfold bodyBytes
  simp only [List.map_append, List.map_map, List.map_cons, List.map_nil, List.flatten_append,
    List.flatten_cons, List.flatten_nil, List.append_nil, List.append_assoc]
  rfl

/-! ## The header block -/

theorem prepareHeadersForSend_chunked {m : HttpMessage} (h : m.chunksSupported = true)
    (keepAlive : Bool) :
    (m.prepareHeadersForSend x keepAlive true).headers.equalRange headerTransferEncoding =
      [str "chunked"] := by
  unfold HttpMessage.prepareHeadersForSend
  dsimp only
  generalize (if keepAlive then str "Keep-Alive" else str "close") = connection
  rw [if_pos rfl, if_pos (show (m.changeHeader x headerConnection connection).chunksSupported = true from h)]
  exact changeValue_equalRange _ headerTransferEncoding (str "chunked")

/-- The header block announces chunks, and is the first line and the headers. -/
theorem headerBlock_chunked {w : HttpResponseWriter} (hw : Streaming w) (ws : List Write) :
    (headerBlock x w ws).1.headers.equalRange headerTransferEncoding = [str "chunked"] ∧
      (headerBlock x w ws).2 = [(headerBlock x w ws).1.firstLine, stringCrlf] ++
        (headerBlock x w ws).1.appendHeaders := by
  obtain ⟨bufs, _, hfill⟩ := fill_eq hw.body ws
  refine ⟨?_, rfl⟩
  unfold headerBlock
  rw [hfill]
  unfold HttpResponseWriter.prepareBuffersForSend HttpResponse.prepareBuffersForSend
    HttpMessage.prepareBuffersForSend
  dsimp only
  rw [getFirstLine_frame]
  refine prepareHeadersForSend_chunked ?_ _
  split
  · exact hw.supported
  · exact hw.supported

/-! ## The round trip -/

/-- A writer for a request, with the status and the headers that the application
has given its response. -/
def writerFor (conn : TcpConnection) (r : HttpRequest) (statusCode : Nat) (statusMessage : Bytes)
    (headers : Dict) : HttpResponseWriter :=
  let w := HttpResponseWriter.new conn r
  { w with response := { w.response with
      statusCode := statusCode, statusMessage := statusMessage, headers := headers, firstLine := [] } }

theorem writerFor_streaming {conn : TcpConnection} {r : HttpRequest} (hopen : conn.isOpen = true)
    (hmajor : r.versionMajor = 1) (hminor : 1 ≤ r.versionMinor) (hmethod : r.method ≠ requestMethodHead)
    (statusCode : Nat) (statusMessage : Bytes) (headers : Dict) :
    Streaming (writerFor conn r statusCode statusMessage headers) := by
  have hresponse : HttpResponse.ofRequest r =
      { requestMethod := r.method, chunksSupported := true } := if_pos ⟨hmajor, hminor⟩
  unfold writerFor HttpResponseWriter.new
  rw [hresponse]
  refine ⟨hopen, rfl, rfl, ?_⟩
  exact decide_eq_true hmethod

/-- **The chunk writer and the chunk parser are inverse.** For every HTTP/1.1 request that
is not a `HEAD`, whatever is written in whatever rounds: one header block, which announces
chunks, and behind it bytes that `parse_chunks` accepts from its initial state, to the last
one, as what was written. -/
theorem writer_roundTrip (conn : TcpConnection) (hopen : conn.isOpen = true) (r : HttpRequest)
    (hmajor : r.versionMajor = 1) (hminor : 1 ≤ r.versionMinor) (hmethod : r.method ≠ requestMethodHead)
    (statusCode : Nat) (statusMessage : Bytes) (headers : Dict)
    (rounds : List (List Write)) (last : List Write)
    (hsize : ∀ ws ∈ rounds ++ [last], (written ws).length < 2 ^ 63)
    (max sizeGarbage readGarbage : Nat)
    (hmax : ((rounds ++ [last]).map written).flatten.length ≤ max) :
    ∃ (response : HttpResponse) (head body : Bytes),
      ((sends x (writerFor conn r statusCode statusMessage headers) rounds last).map
        Send.bytes).flatten = head ++ body ∧
      head = response.firstLine ++ stringCrlf ++ response.appendHeaders.flatten ∧
      response.headers.equalRange headerTransferEncoding = [str "chunked"] ∧
      (let read := parseChunks { parser := HttpParser.fresh max sizeGarbage readGarbage,
                                 msg := HttpRequest.fresh, ec := none, unread := body }
       read.2 = some .true ∧ read.1.unread = [] ∧ read.1.ec = none ∧
         read.1.msg.chunkCache = ((rounds ++ [last]).map written).flatten) := by
  have hw := writerFor_streaming hopen hmajor hminor hmethod statusCode statusMessage headers
  -- the header block is made with the buffers of whichever round comes first
  let first := (rounds ++ [last]).head (by simp)
  obtain ⟨hchunked, hblock⟩ := headerBlock_chunked (x := x) hw first
  refine ⟨(headerBlock x _ first).1, (headerBlock x _ first).2.flatten, bodyBytes rounds last,
    sends_eq hw rfl rounds last, ?_, hchunked, ?_⟩
  · rw [hblock, List.flatten_append]
    simp
  · have hok : (bodyOf ((rounds ++ [last]).map written)).Ok := by
      refine bodyOf_ok ?_
      intro d hd
      obtain ⟨ws, hws, rfl⟩ := List.mem_map.mp hd
      exact hsize ws hws
    let s : ChunkState := ((HttpParser.fresh max sizeGarbage readGarbage).toChunkFields, [])
    have hroom : Room s (bodyOf ((rounds ++ [last]).map written)).data.length := by
      intro _
      rw [bodyOf_data]
      show 0 + _ ≤ max
      omega
    obtain ⟨t, ht, hrun⟩ := readChunkedBody_done hok rfl (s := s) (calm_none rfl) hroom []
    rw [List.append_nil, ← bodyBytes_eq] at hrun
    rw [parseChunks_done hrun]
    refine ⟨rfl, rfl, rfl, ?_⟩
    show t.2 = _
    rw [ht.cache, absorb_cache (s := s) rfl, bodyOf_data]
    rfl

theorem writer_roundTrip_sample :
    ∃ (response : HttpResponse) (head body : Bytes),
      ((sends plainExternals (writerFor {} { versionMinor := 1 } 200 (str "OK") [])
        [[.write (str "ab"), .writeNocopy (str "c")], []] [.write []]).map Send.bytes).flatten =
          head ++ body ∧
      head = response.firstLine ++ stringCrlf ++ response.appendHeaders.flatten ∧
      response.headers.equalRange headerTransferEncoding = [str "chunked"] ∧
      (let read := parseChunks { parser := HttpParser.fresh 3 0 0, msg := HttpRequest.fresh, ec := none,
                                 unread := body }
       read.2 = some .true ∧ read.1.unread = [] ∧ read.1.ec = none ∧
         read.1.msg.chunkCache = str "abc") :=
  writer_roundTrip {} rfl { versionMinor := 1 } rfl (by decide) (by decide) 200 (str "OK") []
    [[.write (str "ab"), .writeNocopy (str "c")], []] [.write []]
    (by
      intro ws hws
      rcases List.mem_cons.mp hws with rfl | hws
      · decide
      · rcases List.mem_cons.mp hws with rfl | hws
        · decide
        · rcases List.mem_singleton.mp hws with rfl
          decide) 3 0 0 (by decide)

end Pion.Proof
