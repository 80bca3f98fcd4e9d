import Pion.Proof.ChunkWriter

/-!
# What follows the header block of a response

A response is a header block and whatever the sends put behind it. Two facts about the client
decide what that is: `chunks_supported` of the response, which the header block goes by, and
`client_supports_chunks` of the writer, which the chunk framing goes by. And the method decides
whether the writer takes any content.

For a `HEAD` request there is never content, but the final chunk is written all the same
(`head_bodiless_iff`). For all other requests the two facts have to agree
(`delimited_iff`).
-/

namespace Pion.Proof

open Pion Lib

variable {x : Externals}

/-- The header block that a writer has sent, to the blank line at its end. -/
def headBlock (w : HttpResponseWriter) : Bytes :=
  if w.sentHeaders then ([w.response.firstLine, stringCrlf] ++ w.response.appendHeaders).flatten else []

/-- A writer that has lost its connection sends nothing. -/
theorem sendMoreData_closed {w : HttpResponseWriter} (hclosed : w.tcpConn.isOpen = false)
    (final : Bool) : w.sendMoreData x final = (w, .finish) := by
  unfold HttpResponseWriter.sendMoreData
  simp [hclosed]

theorem sendMoreData_finish_iff (w : HttpResponseWriter) (final : Bool) :
    (w.sendMoreData x final).2 = .finish ↔ w.tcpConn.isOpen = false := by
  cases hopen : w.tcpConn.isOpen with
  | false => simp [sendMoreData_closed hopen]
  | true =>
    unfold HttpResponseWriter.sendMoreData
    simp [hopen]

/-- **One send on an open connection**: the header block, if it was not sent before, and the
content buffers behind it. -/
theorem sendMoreData_open {w : HttpResponseWriter} (hopen : w.tcpConn.isOpen = true)
    (final : Bool) :
    (w.sendMoreData x final).1 = { w with
        response := if w.sentHeaders then w.response else (w.prepareBuffersForSend x).1.response
        sentHeaders := true } ∧
      headBlock w ++ (w.sendMoreData x final).2.bytes =
        headBlock (w.sendMoreData x final).1 ++ (w.contentWriteBuffers final).flatten := by
  have hsend : w.sendMoreData x final =
      ((w.prepareWriteBuffers x final).1, .write (w.prepareWriteBuffers x final).2) := if_pos hopen
  rw [hsend]
  unfold HttpResponseWriter.prepareWriteBuffers
  cases hsent : w.sentHeaders with
  | true =>
    rw [if_pos rfl, if_pos rfl]
    refine ⟨?_, rfl⟩
    rw [← hsent]
  | false =>
    rw [if_neg Bool.false_ne_true, if_neg Bool.false_ne_true]
    refine ⟨rfl, ?_⟩
    unfold headBlock
    rw [hsent, if_neg Bool.false_ne_true, List.nil_append, if_pos rfl]
    exact List.flatten_append

/-- Behind the header block: the content, and the final chunk if it is asked for, both with
chunk framing just if the client takes chunks. -/
theorem contentWriteBuffers_eq {w : HttpResponseWriter}
    (hlen : w.contentLength = w.contentBuffers.flatten.length)
    (final : Bool) :
    (w.contentWriteBuffers final).flatten =
      if w.clientSupportsChunks && w.sendingChunks then
        encodeChunk w.contentBuffers.flatten ++ (if final then finalChunk else [])
      else w.contentBuffers.flatten := by
  by_cases hchunking : (w.clientSupportsChunks && w.sendingChunks) = true
  · obtain ⟨hc, hs⟩ := Bool.and_eq_true_iff.mp hchunking
    rw [if_pos hchunking, contentWriteBuffers_flatten hs hc hlen]
  · rw [if_neg hchunking]
    unfold HttpResponseWriter.contentWriteBuffers
    dsimp only
    rw [if_neg hchunking, Bool.eq_false_iff.mpr hchunking, Bool.and_false, if_neg Bool.false_ne_true,
      List.append_nil]
    split
    · rfl
    · rename_i hzero
      rw [hlen] at hzero
      exact (List.eq_nil_of_length_eq_zero (Nat.eq_zero_of_not_pos hzero)).symm

/-- A writer that is about to send a chunk. If the client takes none, the connection is to be
closed afterwards. -/
def chunking (w : HttpResponseWriter) : HttpResponseWriter :=
  { w with
    sendingChunks := true
    tcpConn := if w.clientSupportsChunks then w.tcpConn else w.tcpConn.setLifecycle .close }

theorem chunking_isOpen (w : HttpResponseWriter) :
    (chunking w).tcpConn.isOpen = w.tcpConn.isOpen := by
  unfold chunking
  dsimp only
  split <;> rfl

/-- `send_chunk` looks twice whether the connection is open. -/
theorem sendChunk_eq_sendMoreData (w : HttpResponseWriter) :
    w.sendChunk x = (chunking w).sendMoreData x false := by
  have hchunking : (if w.clientSupportsChunks = true then { w with sendingChunks := true }
      else { w with sendingChunks := true, tcpConn := w.tcpConn.setLifecycle .close }) = chunking w := by
    unfold chunking
    split <;> rfl
  unfold HttpResponseWriter.sendChunk
  dsimp only
  rw [hchunking]
  split
  · rfl
  · rename_i hclosed
    exact (if_neg hclosed).symm

/-! ## Responses to `HEAD` -/

/-- A call of the application to its writer. -/
inductive Call where
  | write (data : Bytes)
  | writeNocopy (data : Bytes)
  | clear
  | sendChunk
  | sendFinalChunk
  | send
  deriving DecidableEq

/-- The writer after a call, and the bytes that it sends. -/
def Call.perform (x : Externals) (w : HttpResponseWriter) : Call → HttpResponseWriter × Bytes
  | .write data => (w.write data, [])
  | .writeNocopy data => (w.writeNocopy data, [])
  | .clear => (w.clear, [])
  | .sendChunk => ((w.sendChunk x).1, (w.sendChunk x).2.bytes)
  | .sendFinalChunk => ((w.sendFinalChunk x).1, (w.sendFinalChunk x).2.bytes)
  | .send => ((w.send x).1, (w.send x).2.bytes)

/-- A whole sequence of calls. -/
def performCalls (x : Externals) : HttpResponseWriter → List Call → HttpResponseWriter × Bytes
  | w, [] => (w, [])
  | w, c :: cs =>
    let rest := performCalls x (c.perform x w).1 cs
    (rest.1, (c.perform x w).2 ++ rest.2)

/-- A writer for a `HEAD` request: it has no content and takes none. -/
structure HeadWriter (w : HttpResponseWriter) : Prop where
  method : w.response.requestMethod = requestMethodHead
  buffers : w.contentBuffers = []
  length : w.contentLength = 0

theorem HeadWriter.write {w : HttpResponseWriter} (h : HeadWriter w) (data : Bytes) :
    w.write data = w := by
  unfold HttpResponseWriter.write HttpResponse.isBodyAllowed
  rw [h.method]
  exact if_neg fun hn => absurd hn.1 (by decide)

theorem HeadWriter.clear {w : HttpResponseWriter} (h : HeadWriter w) : w.clear = w := by
  unfold HttpResponseWriter.clear
  rw [← h.buffers, ← h.length]

/-- What a call puts behind the header block. -/
def finals (w : HttpResponseWriter) (c : Call) : Bytes :=
  if c = .sendFinalChunk ∧ w.tcpConn.isOpen ∧ w.clientSupportsChunks then finalChunk else []

/-- What a call to a writer for a `HEAD` request does. -/
structure HeadStep (w : HttpResponseWriter) (c : Call) (r : HttpResponseWriter × Bytes) : Prop where
  writer : HeadWriter r.1
  isOpen : r.1.tcpConn.isOpen = w.tcpConn.isOpen
  chunks : r.1.clientSupportsChunks = w.clientSupportsChunks
  bytes : headBlock w ++ r.2 = headBlock r.1 ++ finals w c
  /-- The header block is sent once. -/
  once : w.sentHeaders = true → r.1.sentHeaders = true ∧ r.1.response = w.response
  /-- Nothing goes out in front of it. -/
  first : r.1.sentHeaders = true ∨ finals w c = []

/-- A call that sends nothing. -/
theorem HeadStep.idle {w w' : HttpResponseWriter} {c : Call} (h : HeadWriter w) (hw : w' = w)
    (hc : finals w c = []) : HeadStep w c (w', []) := by
  subst hw
  refine ⟨h, rfl, rfl, ?_, fun hsent => ⟨hsent, rfl⟩, Or.inr hc⟩
  rw [hc]

/-- A call that sends what there is: nothing but the header block and the final chunk. -/
theorem HeadStep.sends {w : HttpResponseWriter} (h : HeadWriter w) {c : Call} (final : Bool)
    (hfinals : finals w c = if w.tcpConn.isOpen && (w.clientSupportsChunks && w.sendingChunks) && final
      then finalChunk else []) :
    HeadStep w c ((w.sendMoreData x final).1, (w.sendMoreData x final).2.bytes) := by
  cases hopen : w.tcpConn.isOpen with
  | false =>
    rw [hopen] at hfinals
    rw [sendMoreData_closed hopen]
    exact HeadStep.idle h rfl hfinals
  | true =>
    obtain ⟨hw, hbytes⟩ := sendMoreData_open (x := x) hopen final
    have hmethod := (prepareResponse_frame (x := x) w).1
    refine ⟨?_, by rw [hw], by rw [hw], ?_, ?_, Or.inl (by rw [hw])⟩
    · rw [hw]
      refine ⟨?_, h.buffers, h.length⟩
      dsimp only
      split
      · exact h.method
      · exact hmethod.trans h.method
    · rw [hbytes, hfinals, contentWriteBuffers_eq (by rw [h.buffers, h.length]; rfl), h.buffers, hopen]
      congr 1
      cases w.clientSupportsChunks && w.sendingChunks <;> cases final <;> rfl
    · intro hsent
      rw [hw]
      exact ⟨rfl, if_pos hsent⟩

theorem HeadWriter.perform {w : HttpResponseWriter} (h : HeadWriter w) (c : Call) :
    HeadStep w c (c.perform x w) := by
  have hno : c ≠ .sendFinalChunk → finals w c = [] := fun hc => if_neg fun hn => hc hn.1
  cases c with
  | write data => exact HeadStep.idle h (h.write data) (hno (fun hn => by cases hn))
  | writeNocopy data => exact HeadStep.idle h (h.write data) (hno (fun hn => by cases hn))
  | clear => exact HeadStep.idle h h.clear (hno (fun hn => by cases hn))
  | send =>
    refine HeadStep.sends h false ?_
    rw [Bool.and_false]
    exact hno (fun hn => by cases hn)
  | sendFinalChunk =>
    have h' : HeadWriter { w with sendingChunks := true } := ⟨h.method, h.buffers, h.length⟩
    obtain ⟨hw, hopen, hchunks, hbytes, honce, hfirst⟩ :=
      HeadStep.sends (x := x) (c := .sendFinalChunk) h' true
      (show finals w .sendFinalChunk = if w.tcpConn.isOpen && (w.clientSupportsChunks && true) && true
        then finalChunk else [] by unfold finals; simp)
    exact ⟨hw, hopen, hchunks, hbytes, honce, hfirst⟩
  | sendChunk =>
    have h' : HeadWriter (chunking w) := ⟨h.method, h.buffers, h.length⟩
    obtain ⟨hw, hopen, hchunks, hbytes, honce, hfirst⟩ :=
      HeadStep.sends (x := x) (c := .sendChunk) h' false
      (by rw [Bool.and_false]; exact if_neg (fun hn => by cases hn.1))
    unfold Call.perform
    rw [sendChunk_eq_sendMoreData]
    exact ⟨hw, hopen.trans (chunking_isOpen w), hchunks, hbytes, honce, hfirst⟩

/-- **What a whole sequence of calls sends**: one header block, and final chunks. -/
theorem HeadWriter.performCalls : ∀ (calls : List Call) {w : HttpResponseWriter}, HeadWriter w →
    headBlock w ++ (performCalls x w calls).2 =
        headBlock (performCalls x w calls).1 ++ (calls.map (finals w)).flatten ∧
      (w.sentHeaders = true → (performCalls x w calls).1.sentHeaders = true ∧
        (performCalls x w calls).1.response = w.response) := by
  intro calls
  induction calls with
  | nil => exact fun _ => ⟨rfl, fun hsent => ⟨hsent, rfl⟩⟩
  | cons c cs ih =>
    intro w h
    obtain ⟨hw, hopen, hchunks, hbytes, honce, hfirst⟩ := h.perform (x := x) c
    obtain ⟨hrest, hrestOnce⟩ := ih hw
    have hfinals : finals (c.perform x w).1 = finals w := by
      funext c'
      unfold finals
      rw [hopen, hchunks]
    rw [hfinals] at hrest
    refine ⟨?_, fun hsent => ?_⟩
    · show headBlock w ++ ((c.perform x w).2 ++ _) = _
      rw [List.map_cons, List.flatten_cons, ← List.append_assoc, hbytes]
      rcases hfirst with hsent | hnone
      · -- the header block is out, so the other calls only add to the body
        obtain ⟨hsent', hresponse⟩ := hrestOnce hsent
        have hblock : headBlock (Proof.performCalls x (c.perform x w).1 cs).1 = headBlock (c.perform x w).1 := by
          unfold headBlock
          rw [hsent, hsent', hresponse]
        rw [hblock] at hrest
        show headBlock _ ++ finals w c ++ _ = headBlock (Proof.performCalls x (c.perform x w).1 cs).1 ++ _
        rw [hblock, List.append_cancel_left hrest, List.append_assoc]
      · rw [hnone, List.append_nil, List.nil_append]
        exact hrest
    · obtain ⟨hsent', hresponse⟩ := honce hsent
      obtain ⟨hsent'', hresponse'⟩ := hrestOnce hsent'
      exact ⟨hsent'', hresponse'.trans hresponse⟩

/-- Whether the client takes chunks, as the response sees it. -/
theorem ofRequest_chunksSupported (r : HttpRequest) :
    (HttpResponse.ofRequest r).chunksSupported = decide (r.versionMajor = 1 ∧ 1 ≤ r.versionMinor) := by
  unfold HttpResponse.ofRequest HttpResponse.updateRequestInfo
  dsimp only
  by_cases hv : r.versionMajor = 1 ∧ 1 ≤ r.versionMinor
  · rw [if_pos hv, decide_eq_true hv]
  · rw [if_neg hv, decide_eq_false hv]
    split <;> rfl

theorem ofRequest_requestMethod (r : HttpRequest) :
    (HttpResponse.ofRequest r).requestMethod = r.method := by
  unfold HttpResponse.ofRequest HttpResponse.updateRequestInfo
  dsimp only
  split
  · rfl
  · split <;> rfl

/-- **A response to `HEAD` is its header block alone, just if there is no `send_final_chunk`
that gets to frame anything.** Whatever else is called, in whatever order, adds nothing. -/
theorem head_bodiless_iff (x : Externals) (conn : TcpConnection) (r : HttpRequest)
    (hmethod : r.method = requestMethodHead) (statusCode : Nat) (statusMessage : Bytes)
    (headers : Dict)
    (calls : List Call) :
    let w := writerFor conn r statusCode statusMessage headers
    (performCalls x w calls).2 = headBlock (performCalls x w calls).1 ↔
      (Call.sendFinalChunk ∉ calls ∨ ¬ (r.versionMajor = 1 ∧ 1 ≤ r.versionMinor) ∨ conn.isOpen = false) := by
  intro w
  have hw : HeadWriter w := ⟨(ofRequest_requestMethod r).trans hmethod, rfl, rfl⟩
  have hbytes := (hw.performCalls (x := x) calls).1
  rw [show headBlock w = [] from rfl, List.nil_append] at hbytes
  have hfinals : ∀ c, finals w c ≠ [] ↔
      c = .sendFinalChunk ∧ conn.isOpen = true ∧ r.versionMajor = 1 ∧ 1 ≤ r.versionMinor := by
    intro c
    have hchunks : w.clientSupportsChunks = true ↔ r.versionMajor = 1 ∧ 1 ≤ r.versionMinor := by
      rw [show w.clientSupportsChunks = _ from ofRequest_chunksSupported r]
      exact decide_eq_true_iff
    rw [← hchunks]
    unfold finals
    split
    · rename_i hc
      exact iff_of_true (by decide) hc
    · rename_i hc
      exact iff_of_false (fun hn => hn rfl) hc
  rw [hbytes, List.append_right_eq_self, List.flatten_eq_nil_iff]
  constructor
  · intro hnone
    by_contra hcond
    push Not at hcond
    obtain ⟨hmem, hv, hopen⟩ := hcond
    have hne := (hfinals .sendFinalChunk).mpr ⟨rfl, Bool.not_eq_false _ |>.mp hopen, hv⟩
    exact hne (hnone _ (List.mem_map_of_mem hmem))
  · intro hcond bytes hmem
    obtain ⟨c, hc, rfl⟩ := List.mem_map.mp hmem
    by_contra hne
    obtain ⟨rfl, hopen, hv⟩ := (hfinals c).mp hne
    rcases hcond with hno | hno | hno
    · exact hno hc
    · exact hno hv
    · rw [hno] at hopen
      cases hopen

/-- Content that is sent plainly, as the answer to a `HEAD`. -/
theorem head_bodiless_sample :
    let w := writerFor {} { method := requestMethodHead, versionMinor := 1 } 200 (str "OK") []
    (performCalls plainExternals w [.write (str "ab"), .send]).2 =
      headBlock (performCalls plainExternals w [.write (str "ab"), .send]).1 :=
  (head_bodiless_iff plainExternals {} { method := requestMethodHead, versionMinor := 1 } rfl 200 (str "OK") []
    [.write (str "ab"), .send]).mpr (Or.inl (by decide))

/-- The same with `send_final_chunk`: five bytes follow the header block. -/
theorem head_finalChunk_sent :
    let w := writerFor {} { method := requestMethodHead, versionMinor := 1 } 200 (str "OK") []
    let sent := performCalls plainExternals w [.write (str "ab"), .sendFinalChunk]
    sent.2 = headBlock sent.1 ++ [48, 13, 10, 13, 10] ∧ sent.2 ≠ headBlock sent.1 := by
  decide +kernel

/-! ## The headers that delimit a response -/

/-- The headers of a response that the application has not delimited itself. -/
structure Undelimited (d : Dict) : Prop where
  transferEncoding : d.equalRange headerTransferEncoding = []
  contentLength : d.equalRange headerContentLength = []

/-- What `send` and the functions that send chunks say of the length of the body. -/
theorem prepareHeadersForSend_delimiting {m : HttpMessage} (h : Undelimited m.headers)
    (hlength : m.doNotSendContentLength = false) (keepAlive usingChunks : Bool) :
    let d := (m.prepareHeadersForSend x keepAlive usingChunks).headers
    d.equalRange headerTransferEncoding =
      (if usingChunks && m.chunksSupported then [str "chunked"] else []) ∧
      d.equalRange headerContentLength = if usingChunks then [] else [toString m.contentLength] := by
  unfold HttpMessage.prepareHeadersForSend
  dsimp only
  generalize (if keepAlive then str "Keep-Alive" else str "close") = connection
  have hte : (m.changeHeader x headerConnection connection).headers.equalRange headerTransferEncoding = [] :=
    changeValue_other (by decide) h.transferEncoding
  have hcl : (m.changeHeader x headerConnection connection).headers.equalRange headerContentLength = [] :=
    changeValue_other (by decide) h.contentLength
  cases usingChunks with
  | true =>
    have hsupported : (m.changeHeader x headerConnection connection).chunksSupported = m.chunksSupported := rfl
    rw [if_pos rfl, if_pos rfl, hsupported]
    cases m.chunksSupported with
    | true => exact ⟨changeValue_equalRange _ headerTransferEncoding _, changeValue_other (by decide) hcl⟩
    | false => exact ⟨hte, hcl⟩
  | false =>
    rw [if_neg Bool.false_ne_true, if_neg Bool.false_ne_true,
      show (m.changeHeader x headerConnection connection).doNotSendContentLength = _ from hlength]
    exact ⟨changeValue_other (by decide) hte, changeValue_equalRange _ headerContentLength _⟩

/-- The header block of a fresh response. -/
theorem prepareBuffersForSend_delimiting {w : HttpResponseWriter}
    (h : Undelimited w.response.headers)
    (hlength : w.response.doNotSendContentLength = false) :
    let d := (w.prepareBuffersForSend x).1.response.headers
    d.equalRange headerTransferEncoding =
        (if w.sendingChunks && w.response.chunksSupported then [str "chunked"] else []) ∧
      d.equalRange headerContentLength = if w.sendingChunks then []
        else [toString (if w.contentLength > 0 then w.contentLength else w.response.contentLength)] := by
  unfold HttpResponseWriter.prepareBuffersForSend HttpResponse.prepareBuffersForSend
    HttpMessage.prepareBuffersForSend
  dsimp only
  rw [getFirstLine_frame]
  split
  · exact prepareHeadersForSend_delimiting
      (m := { w.response.toHttpMessage with contentLength := w.contentLength })
      h hlength _ _
  · exact prepareHeadersForSend_delimiting h hlength _ _

/-! ## The documented ways to answer -/

def Write.call : Write → Call
  | .write data => .write data
  | .writeNocopy data => .writeNocopy data

/-- Writes and `send`; or rounds of writes that end with `send_chunk`, and a last one, perhaps
the only one, that ends with `send_final_chunk`. -/
inductive Answer where
  | send (ws : List Write)
  | chunks (rounds : List (List Write)) (last : List Write)

def Answer.calls : Answer → List Call
  | .send ws => ws.map Write.call ++ [.send]
  | .chunks rounds last =>
    (rounds.flatMap fun ws => .clear :: ws.map Write.call ++ [.sendChunk]) ++
      (.clear :: last.map Write.call ++ [.sendFinalChunk])

/-- What the writer takes of the writes of a round. -/
def taken (bodyAllowed : Bool) (ws : List Write) : Bytes := if bodyAllowed then written ws else []

/-- The data of the rounds of an answer. -/
def Answer.data (bodyAllowed : Bool) : Answer → List Bytes
  | .send ws => [taken bodyAllowed ws]
  | .chunks rounds last => (rounds ++ [last]).map (taken bodyAllowed)

theorem performCalls_cons (w : HttpResponseWriter) (c : Call) (cs : List Call) :
    performCalls x w (c :: cs) = ((performCalls x (c.perform x w).1 cs).1,
      (c.perform x w).2 ++ (performCalls x (c.perform x w).1 cs).2) := rfl

theorem performCalls_append (w : HttpResponseWriter) (cs ds : List Call) :
    performCalls x w (cs ++ ds) = ((performCalls x (performCalls x w cs).1 ds).1,
      (performCalls x w cs).2 ++ (performCalls x (performCalls x w cs).1 ds).2) := by
  induction cs generalizing w with
  | nil => rfl
  | cons c cs ih =>
    rw [List.cons_append, performCalls_cons, performCalls_cons, ih, List.append_assoc]

theorem performCalls_writes (w : HttpResponseWriter) (ws : List Write) :
    performCalls x w (ws.map Write.call) = (ws.foldl Write.perform w, []) := by
  induction ws generalizing w with
  | nil => rfl
  | cons a ws ih =>
    cases a with
    | write data => exact ih (w.write data)
    | writeNocopy data => exact ih (w.writeNocopy data)

/-- A round: `clear`, some writes, and the call that sends them. -/
theorem performCalls_round (w : HttpResponseWriter) (ws : List Write) (c : Call) :
    performCalls x w (.clear :: ws.map Write.call ++ [c]) = c.perform x (fill w ws) := by
  have hfill : performCalls x w (.clear :: ws.map Write.call) = (fill w ws, []) :=
    performCalls_writes w.clear ws
  rw [performCalls_append, hfill]
  show ((c.perform x (fill w ws)).1, (c.perform x (fill w ws)).2 ++ []) = _
  rw [List.append_nil]

/-- Writes to a writer for a `HEAD` request. -/
theorem performAll_none {w : HttpResponseWriter} (h : w.response.isBodyAllowed = false)
    (ws : List Write) :
    ws.foldl Write.perform w = w := by
  induction ws with
  | nil => rfl
  | cons a ws ih =>
    have hwrite : ∀ data, w.write data = w := by
      intro data
      unfold HttpResponseWriter.write
      rw [h]
      exact if_neg fun hn => absurd hn.1 Bool.false_ne_true
    have ha : a.perform w = w := by
      cases a with
      | write data => exact hwrite data
      | writeNocopy data => exact hwrite data
    rw [List.foldl_cons, ha, ih]

/-- The writer at the end of a round holds what it has taken. -/
theorem fill_taken (w : HttpResponseWriter) (ws : List Write) :
    ∃ bufs, bufs.flatten = taken w.response.isBodyAllowed ws ∧ fill w ws = { w with
      contentBuffers := bufs, contentLength := (taken w.response.isBodyAllowed ws).length } := by
  cases hallowed : w.response.isBodyAllowed with
  | true => exact fill_eq hallowed ws
  | false => exact ⟨[], rfl, performAll_none (w := w.clear) hallowed ws⟩

/-! ## Sending in chunks -/

/-- What a round that sends a chunk puts behind the header block. -/
def piece (chunks : Bool) (data : Bytes) : Bytes := if chunks then encodeChunk data else data

/-- From one writer to another by sends of chunks. `body` is what they put behind the header
block. -/
structure ChunksSent (w w' : HttpResponseWriter) (bytes body : Bytes) : Prop where
  isOpen : w'.tcpConn.isOpen = w.tcpConn.isOpen
  chunks : w'.clientSupportsChunks = w.clientSupportsChunks
  allowed : w'.response.isBodyAllowed = w.response.isBodyAllowed
  bytes : headBlock w ++ bytes = headBlock w' ++ body
  sent : w'.sentHeaders = true
  /-- The header block is sent once, -/
  once : w.sentHeaders = true → w'.response = w.response
  /-- and announces chunks if the response can be in chunks. -/
  headers : w.sentHeaders = false → Undelimited w.response.headers → w.response.doNotSendContentLength = false →
    w'.response.headers.equalRange headerTransferEncoding =
        (if w.response.chunksSupported then [str "chunked"] else []) ∧
      w'.response.headers.equalRange headerContentLength = []

theorem ChunksSent.trans {w w₁ w₂ : HttpResponseWriter} {b₁ b₂ body₁ body₂ : Bytes}
    (h₁ : ChunksSent w w₁ b₁ body₁) (h₂ : ChunksSent w₁ w₂ b₂ body₂) :
    ChunksSent w w₂ (b₁ ++ b₂) (body₁ ++ body₂) := by
  have hresponse := h₂.once h₁.sent
  have hblock : headBlock w₂ = headBlock w₁ := by
    unfold headBlock
    rw [h₁.sent, h₂.sent, hresponse]
  have hbody : b₂ = body₂ := by
    have hbytes := h₂.bytes
    rw [hblock] at hbytes
    exact List.append_cancel_left hbytes
  refine ⟨h₂.isOpen.trans h₁.isOpen, h₂.chunks.trans h₁.chunks, h₂.allowed.trans h₁.allowed, ?_,
    h₂.sent, ?_, ?_⟩
  · rw [← List.append_assoc, h₁.bytes, hblock, hbody, List.append_assoc]
  · exact fun hsent => hresponse.trans (h₁.once hsent)
  · rw [hresponse]
    exact h₁.headers

/-- The send at the end of a round. -/
theorem chunksSent_sendMoreData {w : HttpResponseWriter} (ws : List Write) {conn : TcpConnection}
    (hopen : conn.isOpen = true) (hsame : conn.isOpen = w.tcpConn.isOpen) (final : Bool) :
    let s := { fill w ws with sendingChunks := true, tcpConn := conn }.sendMoreData x final
    s.1.tcpConn = conn ∧ ChunksSent w s.1 s.2.bytes
      (piece w.clientSupportsChunks (taken w.response.isBodyAllowed ws) ++
        (if final && w.clientSupportsChunks then finalChunk else [])) := by
  obtain ⟨bufs, hbufs, hfill⟩ := fill_taken w ws
  rw [hfill]
  let v : HttpResponseWriter := { w with
    contentBuffers := bufs, contentLength := (taken w.response.isBodyAllowed ws).length, sendingChunks := true
    tcpConn := conn }
  obtain ⟨hv, hbytes⟩ := sendMoreData_open (x := x) (w := v) hopen final
  have hmethod := (prepareResponse_frame (x := x) v).1
  have hcontent := contentWriteBuffers_eq (w := v) (by rw [show v.contentBuffers = bufs from rfl, hbufs]) final
  show (v.sendMoreData x final).1.tcpConn = conn ∧ ChunksSent w (v.sendMoreData x final).1
    (v.sendMoreData x final).2.bytes _
  refine ⟨by rw [hv], by rw [hv, ← hsame], by rw [hv], ?_, ?_, by rw [hv], ?_, ?_⟩
  · rw [hv]
    dsimp only
    split
    · rfl
    · unfold HttpResponse.isBodyAllowed
      rw [hmethod]
  · rw [show headBlock w = headBlock v from rfl, hbytes, hcontent,
      show v.contentBuffers = bufs from rfl, hbufs,
      show v.clientSupportsChunks = w.clientSupportsChunks from rfl, show v.sendingChunks = true from rfl,
      Bool.and_true]
    unfold piece
    cases w.clientSupportsChunks with
    | true => rw [Bool.and_true, if_pos rfl, if_pos rfl]
    | false => rw [Bool.and_false, if_neg Bool.false_ne_true, if_neg Bool.false_ne_true,
        if_neg Bool.false_ne_true, List.append_nil]
  · intro hsent
    rw [hv]
    exact if_pos hsent
  · intro hsent hheaders hlength
    rw [hv]
    dsimp only
    rw [if_neg (by rw [show v.sentHeaders = false from hsent]; exact Bool.false_ne_true)]
    exact prepareBuffersForSend_delimiting (w := v) hheaders hlength

theorem chunksSent_sendFinalChunk {w : HttpResponseWriter} (hopen : w.tcpConn.isOpen = true)
    (ws : List Write) :
    let s := (fill w ws).sendFinalChunk x
    s.1.tcpConn = w.tcpConn ∧ ChunksSent w s.1 s.2.bytes
      (piece w.clientSupportsChunks (taken w.response.isBodyAllowed ws) ++
        (if w.clientSupportsChunks then finalChunk else [])) := by
  have hconn : (fill w ws).tcpConn = w.tcpConn := by
    obtain ⟨bufs, _, hfill⟩ := fill_taken w ws
    rw [hfill]
  unfold HttpResponseWriter.sendFinalChunk
  rw [hconn]
  exact chunksSent_sendMoreData ws hopen rfl true

theorem chunksSent_sendChunk {w : HttpResponseWriter} (hopen : w.tcpConn.isOpen = true)
    (ws : List Write) :
    let s := (fill w ws).sendChunk x
    s.1.tcpConn = (chunking w).tcpConn ∧ ChunksSent w s.1 s.2.bytes
      (piece w.clientSupportsChunks (taken w.response.isBodyAllowed ws)) := by
  have hconn : (chunking (fill w ws)).tcpConn = (chunking w).tcpConn := by
    obtain ⟨bufs, _, hfill⟩ := fill_taken w ws
    rw [hfill]
    rfl
  have hopen' : (chunking w).tcpConn.isOpen = true := by rw [chunking_isOpen, hopen]
  obtain ⟨htcp, hsent⟩ := chunksSent_sendMoreData (x := x) ws hopen' (chunking_isOpen w) false
  dsimp only
  rw [sendChunk_eq_sendMoreData]
  rw [← hconn] at htcp hsent ⊢
  rw [Bool.false_and, if_neg Bool.false_ne_true, List.append_nil] at hsent
  exact ⟨htcp, hsent⟩

/-- Whether the connection will be kept after a chunk. -/
theorem chunking_getKeepAlive (w : HttpResponseWriter) :
    (chunking w).tcpConn.getKeepAlive = (w.tcpConn.getKeepAlive && w.clientSupportsChunks) := by
  unfold chunking
  dsimp only
  cases w.clientSupportsChunks with
  | true => rw [if_pos rfl, Bool.and_true]
  | false =>
    rw [if_neg Bool.false_ne_true, Bool.and_false]
    rfl

/-- The rounds of an answer in chunks. The connection is kept for the next request only if no
round was sent to a client that takes no chunks, other than the last. -/
theorem performCalls_chunks : ∀ (rounds : List (List Write)) (last : List Write)
    {w : HttpResponseWriter},
    w.tcpConn.isOpen = true →
    let r := performCalls x w (Answer.chunks rounds last).calls
    ChunksSent w r.1 r.2
        ((((rounds ++ [last]).map (taken w.response.isBodyAllowed)).map (piece w.clientSupportsChunks)).flatten ++
          if w.clientSupportsChunks then finalChunk else []) ∧
      r.1.tcpConn.getKeepAlive =
        (w.tcpConn.getKeepAlive && (w.clientSupportsChunks || rounds.isEmpty)) := by
  intro rounds last
  induction rounds with
  | nil =>
    intro w hopen
    obtain ⟨hconn, hsent⟩ := chunksSent_sendFinalChunk (x := x) hopen last
    dsimp only
    rw [show (Answer.chunks [] last).calls = .clear :: last.map Write.call ++ [.sendFinalChunk] from rfl,
      performCalls_round]
    refine ⟨?_, ?_⟩
    · rw [List.nil_append, List.map_singleton, List.map_singleton, List.flatten_singleton]
      exact hsent
    · rw [List.isEmpty_nil, Bool.or_true, Bool.and_true]
      exact congrArg TcpConnection.getKeepAlive hconn
  | cons ws rounds ih =>
    intro w hopen
    obtain ⟨hconn, hsent⟩ := chunksSent_sendChunk (x := x) hopen ws
    have hopen' : ((fill w ws).sendChunk x).1.tcpConn.isOpen = true := hsent.isOpen.trans hopen
    obtain ⟨hrest, hkeep⟩ := ih hopen'
    have hcalls : (Answer.chunks (ws :: rounds) last).calls =
        (.clear :: ws.map Write.call ++ [.sendChunk]) ++ (Answer.chunks rounds last).calls := by
      unfold Answer.calls
      dsimp only
      rw [List.flatMap_cons, List.append_assoc]
    dsimp only
    rw [hcalls, performCalls_append, performCalls_round]
    rw [hsent.chunks, hsent.allowed] at hrest
    refine ⟨?_, ?_⟩
    · rw [List.cons_append, List.map_cons, List.map_cons, List.flatten_cons, List.append_assoc]
      exact hsent.trans hrest
    · rw [hsent.chunks, hconn, chunking_getKeepAlive] at hkeep
      refine hkeep.trans ?_
      rw [List.isEmpty_cons, Bool.or_false]
      cases w.clientSupportsChunks with
      | true => rw [Bool.true_or, Bool.and_true]
      | false => rw [Bool.and_false, Bool.false_and]

/-! ## Delimiting -/

/-- The response that was sent delimits itself: what it says of its length is true, and it says
so if there can be another response behind it. -/
def Delimited (data : List Bytes) (sent : HttpResponseWriter × Bytes) : Prop :=
  ∃ body, sent.2 = headBlock sent.1 ++ body ∧
    (sent.1.tcpConn.getKeepAlive = true →
      sent.1.response.headers.equalRange headerContentLength = [toString body.length] ∨
        sent.1.response.headers.equalRange headerTransferEncoding = [str "chunked"]) ∧
    (body = (bodyOf data).text ↔
      sent.1.response.headers.equalRange headerTransferEncoding = [str "chunked"])

theorem ofRequest_sendsLength (r : HttpRequest) :
    (HttpResponse.ofRequest r).doNotSendContentLength = false ∧
      (HttpResponse.ofRequest r).contentLength = 0 := by
  unfold HttpResponse.ofRequest HttpResponse.updateRequestInfo
  dsimp only
  split
  · exact ⟨rfl, rfl⟩
  · split <;> exact ⟨rfl, rfl⟩

/-- The framing always takes some room: the final chunk at least. -/
theorem flatten_ne_bodyOf (data : List Bytes) : data.flatten ≠ (bodyOf data).text := by
  have hchunk : ∀ d, d.length ≤ (encodeChunk d).length := by
    intro d
    unfold encodeChunk
    split
    · rename_i hd
      rw [hd]
    · simp only [List.length_append]
      omega
  have hle : data.flatten.length ≤ (data.map encodeChunk).flatten.length := by
    induction data with
    | nil => exact Nat.le_refl 0
    | cons d data ih =>
      simp only [List.flatten_cons, List.map_cons, List.length_append]
      exact Nat.add_le_add (hchunk d) ih
  intro heq
  have hlen := congrArg List.length heq
  rw [bodyOf_text, List.length_append, show finalChunk.length = 5 from by decide] at hlen
  omega

/-- The rounds of an answer come out framed just if the client takes chunks. -/
theorem piece_eq_bodyOf (chunks : Bool) (data : List Bytes) :
    (data.map (piece chunks)).flatten ++ (if chunks then finalChunk else []) = (bodyOf data).text ↔
      chunks = true := by
  cases chunks with
  | true =>
    rw [bodyOf_text]
    exact iff_of_true rfl rfl
  | false =>
    have hplain : data.map (piece false) = data := List.map_id data
    rw [hplain, if_neg Bool.false_ne_true, List.append_nil]
    exact iff_of_false (flatten_ne_bodyOf data) Bool.false_ne_true

/-- What `send` sends. -/
theorem performCalls_send {w : HttpResponseWriter} (hopen : w.tcpConn.isOpen = true)
    (hclear : w.clear = w)
    (hchunks : w.sendingChunks = false) (hsent : w.sentHeaders = false) (ws : List Write) :
    let r := performCalls x w (Answer.send ws).calls
    let data := taken w.response.isBodyAllowed ws
    r.2 = headBlock r.1 ++ data ∧
      (Undelimited w.response.headers → w.response.doNotSendContentLength = false → w.response.contentLength = 0 →
        r.1.response.headers.equalRange headerTransferEncoding = [] ∧
          r.1.response.headers.equalRange headerContentLength = [toString data.length]) := by
  obtain ⟨bufs, hbufs, hfill⟩ := fill_taken w ws
  let v : HttpResponseWriter := { w with
    contentBuffers := bufs, contentLength := (taken w.response.isBodyAllowed ws).length }
  have hrun : performCalls x w (Answer.send ws).calls = ((v.send x).1, (v.send x).2.bytes) := by
    unfold fill at hfill
    rw [hclear] at hfill
    show performCalls x w (ws.map Write.call ++ [.send]) = _
    rw [performCalls_append, performCalls_writes, hfill]
    show (_, [] ++ ((v.send x).2.bytes ++ [])) = _
    rw [List.append_nil, List.nil_append]
    rfl
  obtain ⟨hv, hbytes⟩ := sendMoreData_open (x := x) (w := v) hopen false
  have hunsent : ¬ v.sentHeaders = true := by
    rw [show v.sentHeaders = false from hsent]
    exact Bool.false_ne_true
  rw [hrun]
  refine ⟨?_, fun hheaders hlength hzero => ?_⟩
  · rw [show headBlock v = [] from if_neg hunsent, List.nil_append, contentWriteBuffers_eq (w := v) (by
      rw [show v.contentBuffers = bufs from rfl, hbufs]), show v.contentBuffers = bufs from rfl, hbufs,
      show v.sendingChunks = false from hchunks, Bool.and_false, if_neg Bool.false_ne_true] at hbytes
    exact hbytes
  · obtain ⟨hte, hcl⟩ := prepareBuffersForSend_delimiting (x := x) (w := v) hheaders hlength
    rw [show v.sendingChunks = false from hchunks] at hte hcl
    show (v.sendMoreData x false).1.response.headers.equalRange _ = _ ∧
      (v.sendMoreData x false).1.response.headers.equalRange _ = _
    rw [hv]
    dsimp only
    rw [if_neg hunsent]
    refine ⟨hte, hcl.trans ?_⟩
    rw [if_neg Bool.false_ne_true]
    split
    · rfl
    · rename_i hempty
      rw [show v.response.contentLength = 0 from hzero, ← Nat.eq_zero_of_not_pos hempty]

/-- **A response delimits itself just if the writer and the response agree on chunks**, unless
it is sent as a whole. If they agree that there are none, there must have been a `send_chunk`
to mark the connection for closing, or it is to be closed anyway. -/
theorem delimited_iff (x : Externals) (conn : TcpConnection) (hopen : conn.isOpen = true)
    (r : HttpRequest)
    (supports : Bool) (statusCode : Nat) (statusMessage : Bytes) (headers : Dict)
    (hheaders : Undelimited headers)
    (a : Answer) :
    Delimited (a.data (decide (r.method ≠ requestMethodHead)))
        (performCalls x
          ((writerFor conn r statusCode statusMessage headers).supportsChunkedMessages supports) a.calls) ↔
      (∃ ws, a = .send ws) ∨
        ∃ rounds last, a = .chunks rounds last ∧
          (supports = true ↔ r.versionMajor = 1 ∧ 1 ≤ r.versionMinor) ∧
          ((r.versionMajor = 1 ∧ 1 ≤ r.versionMinor) ∨ rounds ≠ [] ∨ conn.getKeepAlive = false) := by
  let w := (writerFor conn r statusCode statusMessage headers).supportsChunkedMessages supports
  obtain ⟨hlength, hzero⟩ := ofRequest_sendsLength r
  have hallowed : w.response.isBodyAllowed = decide (r.method ≠ requestMethodHead) := by
    show decide ((HttpResponse.ofRequest r).requestMethod ≠ requestMethodHead) = _
    rw [ofRequest_requestMethod]
  have hsupported : w.response.chunksSupported = decide (r.versionMajor = 1 ∧ 1 ≤ r.versionMinor) :=
    ofRequest_chunksSupported r
  have hfresh : headBlock w = [] := rfl
  rw [← hallowed]
  cases a with
  | send ws =>
    refine iff_of_true ?_ (Or.inl ⟨ws, rfl⟩)
    obtain ⟨hbytes, hdelimiting⟩ := performCalls_send (x := x) (w := w) hopen rfl rfl rfl ws
    obtain ⟨hte, hcl⟩ := hdelimiting hheaders hlength hzero
    refine ⟨_, hbytes, fun _ => Or.inl hcl, iff_of_false ?_ ?_⟩
    · have hne := flatten_ne_bodyOf [taken w.response.isBodyAllowed ws]
      rw [List.flatten_singleton] at hne
      exact hne
    · rw [hte]
      exact List.cons_ne_nil _ _ |>.symm
  | chunks rounds last =>
    obtain ⟨hsent, hkeep⟩ := performCalls_chunks (x := x) rounds last (w := w) hopen
    obtain ⟨hte, hcl⟩ := hsent.headers rfl hheaders hlength
    have hbytes := hsent.bytes
    rw [hfresh, List.nil_append] at hbytes
    have hchunked := piece_eq_bodyOf supports ((rounds ++ [last]).map (taken w.response.isBodyAllowed))
    have hannounced : (performCalls x w (Answer.chunks rounds last).calls).1.response.headers.equalRange
        headerTransferEncoding = [str "chunked"] ↔ r.versionMajor = 1 ∧ 1 ≤ r.versionMinor := by
      rw [hte, hsupported]
      by_cases hv : r.versionMajor = 1 ∧ 1 ≤ r.versionMinor
      · rw [decide_eq_true hv, if_pos rfl]
        exact iff_of_true rfl hv
      · rw [decide_eq_false hv, if_neg Bool.false_ne_true]
        exact iff_of_false (fun hn => by cases hn) hv
    have hkept : (performCalls x w (Answer.chunks rounds last).calls).1.tcpConn.getKeepAlive = true ↔
        conn.getKeepAlive = true ∧ (supports = true ∨ rounds = []) := by
      rw [hkeep, Bool.and_eq_true, Bool.or_eq_true, List.isEmpty_iff]
      exact Iff.rfl
    constructor
    · rintro ⟨body, hbody, hdelimits, hframed⟩
      rw [hbytes] at hbody
      rw [← List.append_cancel_left hbody, hannounced] at hframed
      have hagree := hchunked.symm.trans hframed
      refine Or.inr ⟨rounds, last, rfl, hagree, ?_⟩
      by_contra hnot
      push Not at hnot
      obtain ⟨hv, hrounds, hconn⟩ := hnot
      rcases hdelimits (hkept.mpr ⟨Bool.not_eq_false _ |>.mp hconn, Or.inr hrounds⟩) with hlen | hchunks
      · rw [hcl] at hlen
        cases hlen
      · exact absurd (hannounced.mp hchunks).2 (hv (hannounced.mp hchunks).1)
    · rintro (⟨ws, hws⟩ | ⟨rounds', last', heq, hagree, hclosing⟩)
      · cases hws
      · cases heq
        refine ⟨_, hbytes, fun hk => Or.inr (hannounced.mpr ?_),
          (hchunked.trans hagree).trans hannounced.symm⟩
        obtain ⟨hconn, hkeeps⟩ := hkept.mp hk
        rcases hclosing with hv | hrounds | hclose
        · exact hv
        · exact hagree.mp (hkeeps.resolve_right hrounds)
        · rw [hclose] at hconn
          cases hconn

/-- Chunks for a client of HTTP/1.1. -/
theorem delimited_sample :
    Delimited [str "ab", str "c"] (performCalls plainExternals
      ((writerFor { currentLifecycle := .keepalive } { versionMinor := 1 } 200 (str "OK") []).supportsChunkedMessages true)
      (Answer.chunks [[.write (str "ab")]] [.writeNocopy (str "c")]).calls) :=
  (delimited_iff plainExternals { currentLifecycle := .keepalive } rfl { versionMinor := 1 } true 200 (str "OK") []
    ⟨rfl, rfl⟩ (.chunks [[.write (str "ab")]] [.writeNocopy (str "c")])).mpr
      (Or.inr ⟨_, _, rfl, by decide, Or.inl (by decide)⟩)

/-- A request of version 2.0 has its connection kept, but the response is not in chunks: after
`send_final_chunk` alone, nothing says where it ends. -/
theorem undelimited_http2 :
    ({ versionMajor := 2, versionMinor := 0 } : HttpRequest).checkKeepAlive = true ∧
      ¬ Delimited [str "ab"] (performCalls plainExternals
        (writerFor { currentLifecycle := .keepalive } { versionMajor := 2, versionMinor := 0 } 200 (str "OK") [])
        (Answer.chunks [] [.write (str "ab")]).calls) := by
  refine ⟨by decide, ?_⟩
  rintro ⟨body, -, hdelimits, -⟩
  rcases hdelimits (by decide +kernel) with hlen | hchunks
  · have hnone : (performCalls plainExternals
        (writerFor { currentLifecycle := .keepalive } { versionMajor := 2, versionMinor := 0 } 200 (str "OK") [])
        (Answer.chunks [] [.write (str "ab")]).calls).1.response.headers.equalRange headerContentLength = [] := by
      decide +kernel
    rw [hnone] at hlen
    cases hlen
  · revert hchunks
    decide +kernel

end Pion.Proof
