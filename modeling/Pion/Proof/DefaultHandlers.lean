import Pion.DefaultHandlers
import Pion.Lib.Quoting
import Pion.Proof.ResponseBody

/-!
# What the default handlers answer

Each default handler sends one response, which says itself how long it is. A request that nobody
handles has its resource in the answer, inside of a string, and cannot get out of there.
-/

namespace Pion.Proof

open Pion Lib

variable {x : Externals}

inductive DefaultHandler where
  | badRequest
  | notFound
  | rootOptions
  deriving DecidableEq

namespace DefaultHandler

def answer (x : Externals) (m : HttpRequest) (w : HttpResponseWriter) : DefaultHandler → HttpResponseWriter × Send
  | badRequest => handleBadRequest x w
  | notFound => handleNotFoundRequest x m w
  | rootOptions => handleRootOptions x w

/-- What the handler writes, in one piece. -/
def text (m : HttpRequest) : DefaultHandler → Bytes
  | badRequest => badRequestMsg
  | notFound => notFoundMsgStart ++ quotedResource m ++ notFoundMsgFinish
  | rootOptions => []

/-- What is left of that in an answer to this request. -/
def body (m : HttpRequest) (h : DefaultHandler) : Bytes := if m.method = requestMethodHead then [] else h.text m

/-- A response has no status of its own for a request without a version. -/
def status (m : HttpRequest) : DefaultHandler → Bytes
  | badRequest => str "400 Bad Request"
  | notFound => str "404 Not Found"
  | rootOptions => if m.versionMajor = 0 then str "0 " else str "200 OK"

def firstLine (m : HttpRequest) (h : DefaultHandler) : Bytes :=
  (if m.versionMajor = 0 then str "HTTP/0.0 " else str "HTTP/1.1 ") ++ h.status m

end DefaultHandler

/-! ## Sending at once -/

/-- The headers of a response that is sent as a whole. -/
structure WholeHeaders (w : HttpResponseWriter) (body : Bytes) (headers : Dict) : Prop where
  contentLength : headers.equalRange headerContentLength = [toString body.length]
  transferEncoding : headers.equalRange headerTransferEncoding = []
  connection : headers.equalRange headerConnection =
    [if w.tcpConn.getKeepAlive then str "Keep-Alive" else str "close"]
  other : ∀ key, iequals headerConnection key = false → iequals headerContentLength key = false →
    (headers.equalRange key).Perm (w.response.headers.equalRange key)

/-- A writer that nothing has been sent with. -/
structure Unsent (w : HttpResponseWriter) (body : Bytes) : Prop where
  sentHeaders : w.sentHeaders = false
  sendingChunks : w.sendingChunks = false
  buffers : w.contentBuffers.flatten = body
  length : w.contentLength = body.length
  firstLine : w.response.firstLine = []
  undelimited : Undelimited w.response.headers
  sendsLength : w.response.doNotSendContentLength = false
  unset : w.response.contentLength = 0

theorem prepared_headers {m : HttpMessage} (hlength : m.doNotSendContentLength = false) (keepAlive : Bool) :
    (m.prepareHeadersForSend x keepAlive false).headers = (m.headers.changeValue x headerConnection
      (if keepAlive then str "Keep-Alive" else str "close")).changeValue x headerContentLength
        (toString m.contentLength) := by
  unfold HttpMessage.prepareHeadersForSend
  generalize (if keepAlive then str "Keep-Alive" else str "close") = connection
  dsimp only
  rw [if_neg Bool.false_ne_true, if_pos (by simpa [HttpMessage.changeHeader] using hlength)]
  rfl

/-- The response that is sent in one piece, as its head is made. -/
theorem prepared_response {w : HttpResponseWriter} {body : Bytes} (hw : Unsent w body) :
    let m := (w.prepareBuffersForSend x).1.response
    m.firstLine = w.response.updateFirstLine ∧ m.headers =
      (w.response.headers.changeValue x headerConnection
        (if w.tcpConn.getKeepAlive then str "Keep-Alive" else str "close")).changeValue x headerContentLength
          (toString body.length) := by
  let response : HttpResponse := { w.response with contentLength := body.length }
  have hprepared : (w.prepareBuffersForSend x).1.response =
      (response.prepareBuffersForSend x w.tcpConn.getKeepAlive false).1 := by
    unfold HttpResponseWriter.prepareBuffersForSend
    dsimp only
    rw [hw.sendingChunks, hw.length]
    split
    · rfl
    · -- there is no body, and the length is zero already
      rename_i hzero
      have hnil : body.length = w.response.contentLength := by
        rw [hw.unset]
        omega
      show (w.response.prepareBuffersForSend x _ false).1 =
        (({ w.response with contentLength := body.length } : HttpResponse).prepareBuffersForSend x _ false).1
      rw [hnil]
  have hsent : (response.toHttpMessage.prepareHeadersForSend x w.tcpConn.getKeepAlive false).firstLine = [] := by
    rw [prepareHeadersForSend_frame]
    exact hw.firstLine
  intro m
  rw [show m = _ from hprepared]
  unfold HttpResponse.prepareBuffersForSend HttpMessage.prepareBuffersForSend
  dsimp only
  constructor
  · unfold HttpMessage.getFirstLine
    rw [if_pos hsent]
    rfl
  · rw [getFirstLine_frame]
    exact prepared_headers (m := response.toHttpMessage) hw.sendsLength w.tcpConn.getKeepAlive

/-- **What a writer sends in one piece.** -/
theorem send_whole {w : HttpResponseWriter} {body : Bytes} (hw : Unsent w body) (hopen : w.tcpConn.isOpen = true) :
    ∃ headers, WholeHeaders w body headers ∧ (w.send x).2.bytes =
      w.response.updateFirstLine ++ stringCrlf ++ (headerText (headers.map headerLine) ++ stringCrlf) ++ body := by
  obtain ⟨hafter, hbytes⟩ := sendMoreData_open (x := x) hopen false
  obtain ⟨hline, hheaders⟩ := prepared_response (x := x) hw
  have hunsent : ¬ w.sentHeaders = true := by simp [hw.sentHeaders]
  have hcontent : (w.contentWriteBuffers false).flatten = body := by
    rw [contentWriteBuffers_eq (by rw [hw.buffers, hw.length]), hw.sendingChunks, Bool.and_false,
      if_neg Bool.false_ne_true, hw.buffers]
  have hother : ∀ key, iequals headerConnection key = false → iequals headerContentLength key = false →
      ((w.prepareBuffersForSend x).1.response.headers.equalRange key).Perm (w.response.headers.equalRange key) := by
    intro key hconn hlength
    rw [hheaders]
    exact (changeValue_equalRange_other hlength _ _).trans (changeValue_equalRange_other hconn _ _)
  refine ⟨(w.prepareBuffersForSend x).1.response.headers, ⟨?_, ?_, ?_, hother⟩, ?_⟩
  · rw [hheaders]
    exact changeValue_equalRange _ _ _
  · have hnone := hother headerTransferEncoding (by decide) (by decide)
    rw [hw.undelimited.transferEncoding] at hnone
    exact hnone.eq_nil
  · rw [hheaders]
    have hname : iequals headerContentLength headerConnection = false := by decide
    have hkept := changeValue_equalRange_other (x := x) hname (w.response.headers.changeValue x headerConnection
      (if w.tcpConn.getKeepAlive then str "Keep-Alive" else str "close")) (toString body.length)
    rw [changeValue_equalRange] at hkept
    exact List.perm_singleton.mp hkept
  · rw [show headBlock w = [] from if_neg hunsent, List.nil_append, hcontent] at hbytes
    refine hbytes.trans ?_
    unfold headBlock
    rw [hafter, if_pos rfl]
    dsimp only
    rw [if_neg hunsent, List.flatten_append, appendHeaders_flatten, hline]
    simp

/-! ## The three answers -/

/-- A writer takes content for a request that may have some in its answer. -/
theorem Unsent.write {w : HttpResponseWriter} {body : Bytes} (hw : Unsent w body) {allowed : Bool}
    (hallowed : w.response.isBodyAllowed = allowed) (data : Bytes) :
    Unsent (w.write data) (body ++ if allowed then data else []) ∧
      (w.write data).response = w.response ∧ (w.write data).tcpConn = w.tcpConn := by
  unfold HttpResponseWriter.write
  rw [hallowed]
  by_cases htakes : allowed ∧ data.length > 0
  · rw [if_pos htakes, if_pos htakes.1]
    refine ⟨⟨hw.sentHeaders, hw.sendingChunks, ?_, ?_, hw.firstLine, hw.undelimited, hw.sendsLength, hw.unset⟩, rfl,
      rfl⟩
    · simp [hw.buffers]
    · simp [hw.length]
  · have hnone : (if allowed then data else []) = [] := by
      split
      · rename_i htrue
        by_contra hne
        exact htakes ⟨htrue, List.length_pos_iff.mpr hne⟩
      · rfl
    rw [if_neg htakes, hnone, List.append_nil]
    exact ⟨hw, rfl, rfl⟩

/-- A new response, as the constructors leave it. -/
structure NewResponse (m : HttpRequest) (s : HttpResponse) : Prop where
  headers : s.headers = []
  firstLine : s.firstLine = []
  sendsLength : s.doNotSendContentLength = false
  unset : s.contentLength = 0
  version : s.getVersionString = if m.versionMajor = 0 then str "HTTP/0.0" else str "HTTP/1.1"
  status : toString s.statusCode ++ [sp] ++ s.statusMessage = if m.versionMajor = 0 then str "0 " else str "200 OK"
  bodyAllowed : s.isBodyAllowed = decide (m.method ≠ requestMethodHead)

theorem ofRequest_new (m : HttpRequest) : NewResponse m (HttpResponse.ofRequest m) := by
  unfold HttpResponse.ofRequest HttpResponse.updateRequestInfo
  dsimp only
  by_cases hone : m.versionMajor = 1 ∧ m.versionMinor ≥ 1
  · have hne : ¬ m.versionMajor = 0 := by
      rw [hone.1]
      decide
    rw [if_pos hone]
    refine ⟨rfl, rfl, rfl, rfl, ?_, ?_, rfl⟩
    · rw [if_neg hne]
      show HttpMessage.getVersionString { chunksSupported := true } = _
      decide +kernel
    · rw [if_neg hne]
      show toString 200 ++ [sp] ++ str "OK" = str "200 OK"
      decide +kernel
  · rw [if_neg hone]
    by_cases hzero : m.versionMajor = 0
    · rw [if_pos hzero]
      refine ⟨rfl, rfl, rfl, rfl, ?_, ?_, rfl⟩
      · rw [if_pos hzero]
        show HttpMessage.getVersionString { versionMajor := 0, versionMinor := 0 } = _
        decide +kernel
      · rw [if_pos hzero]
        show toString 0 ++ [sp] ++ [] = str "0 "
        decide +kernel
    · rw [if_neg hzero]
      refine ⟨rfl, rfl, rfl, rfl, ?_, ?_, rfl⟩
      · rw [if_neg hzero]
        show HttpMessage.getVersionString {} = _
        decide +kernel
      · rw [if_neg hzero]
        show toString 200 ++ [sp] ++ str "OK" = str "200 OK"
        decide +kernel

/-- A new writer, with a status for its response. -/
def statusWriter (conn : TcpConnection) (m : HttpRequest) (code : Nat) (message : Bytes) : HttpResponseWriter :=
  { HttpResponseWriter.new conn m with
    response := ((HttpResponse.ofRequest m).setStatusCode code).setStatusMessage message }

theorem NewResponse.unsent {m : HttpRequest} (h : NewResponse m (HttpResponse.ofRequest m)) (conn : TcpConnection)
    (code : Nat) (message : Bytes) : Unsent (statusWriter conn m code message) [] := by
  refine ⟨rfl, rfl, rfl, rfl, rfl, ⟨?_, ?_⟩, h.sendsLength, h.unset⟩
  · show Dict.equalRange (HttpResponse.ofRequest m).headers _ = []
    rw [h.headers]
    rfl
  · show Dict.equalRange (HttpResponse.ofRequest m).headers _ = []
    rw [h.headers]
    rfl

theorem NewResponse.line {m : HttpRequest} {s : HttpResponse} (h : NewResponse m s) :
    s.getVersionString ++ [sp] = if m.versionMajor = 0 then str "HTTP/0.0 " else str "HTTP/1.1 " := by
  rw [h.version]
  split
  · decide +kernel
  · decide +kernel

/-- The writer with which a default handler calls `send`. -/
structure AboutToSend (conn : TcpConnection) (m : HttpRequest) (d : DefaultHandler) (w : HttpResponseWriter) :
    Prop where
  unsent : Unsent w (d.body m)
  tcpConn : w.tcpConn = conn
  firstLine : w.response.updateFirstLine = d.firstLine m
  allow : w.response.headers.equalRange headerAllow = if d = .rootOptions then [rootMethods] else []

/-- A handler that sets the status, and writes some text. -/
theorem aboutToSend_status {conn : TcpConnection} {m : HttpRequest} {d : DefaultHandler} {w : HttpResponseWriter}
    {code : Nat} {message : Bytes} (hunsent : Unsent w (d.body m)) (hconn : w.tcpConn = conn)
    (hresponse : w.response = ((HttpResponse.ofRequest m).setStatusCode code).setStatusMessage message)
    (hd : d ≠ .rootOptions) (hstatus : d.status m = toString code ++ [sp] ++ message) : AboutToSend conn m d w := by
  have hnew := ofRequest_new m
  refine ⟨hunsent, hconn, ?_, ?_⟩
  · rw [hresponse]
    show (HttpResponse.ofRequest m).getVersionString ++ [sp] ++ toString code ++ [sp] ++ message = _
    unfold DefaultHandler.firstLine
    rw [hnew.line, hstatus, List.append_assoc, List.append_assoc, List.append_assoc]
  · rw [hresponse, if_neg hd]
    show Dict.equalRange (HttpResponse.ofRequest m).headers _ = []
    rw [hnew.headers]
    rfl

theorem answer_aboutToSend (x : Externals) (conn : TcpConnection) (m : HttpRequest) (d : DefaultHandler) :
    ∃ w, d.answer x m (.new conn m) = w.send x ∧ AboutToSend conn m d w := by
  have hnew := ofRequest_new m
  have hallowed : (HttpResponse.ofRequest m).isBodyAllowed = decide (m.method ≠ requestMethodHead) := hnew.bodyAllowed
  cases d with
  | badRequest =>
    obtain ⟨hunsent, hresponse, hconn⟩ := (hnew.unsent conn 400 (str "Bad Request")).write hallowed badRequestMsg
    have hbody : [] ++ (if decide (m.method ≠ requestMethodHead) then badRequestMsg else []) =
        DefaultHandler.badRequest.body m := by
      unfold DefaultHandler.body
      by_cases hhead : m.method = requestMethodHead
      · simp [hhead]
      · simp [hhead, DefaultHandler.text]
    refine ⟨_, rfl, aboutToSend_status (hbody ▸ hunsent) hconn hresponse (by decide) ?_⟩
    show str "400 Bad Request" = _
    decide +kernel
  | notFound =>
    -- all three writes are taken, or none is
    have hkept : ∀ {s : HttpResponse}, s = (statusWriter conn m 404 (str "Not Found")).response →
        s.isBodyAllowed = decide (m.method ≠ requestMethodHead) :=
      fun h => (congrArg HttpResponse.isBodyAllowed h).trans hallowed
    obtain ⟨hstart, hresponse₁, hconn₁⟩ := (hnew.unsent conn 404 (str "Not Found")).write hallowed notFoundMsgStart
    obtain ⟨hresource, hresponse₂, hconn₂⟩ := hstart.write (hkept hresponse₁) (quotedResource m)
    obtain ⟨hfinish, hresponse₃, hconn₃⟩ := hresource.write (hkept (hresponse₂.trans hresponse₁))
      notFoundMsgFinish
    have hbody : [] ++ (if decide (m.method ≠ requestMethodHead) then notFoundMsgStart else []) ++
        (if decide (m.method ≠ requestMethodHead) then quotedResource m else []) ++
        (if decide (m.method ≠ requestMethodHead) then notFoundMsgFinish else []) =
        DefaultHandler.notFound.body m := by
      unfold DefaultHandler.body
      by_cases hhead : m.method = requestMethodHead
      · simp [hhead]
      · simp [hhead, DefaultHandler.text]
    refine ⟨_, rfl, aboutToSend_status (hbody ▸ hfinish) (hconn₃.trans (hconn₂.trans hconn₁))
      (hresponse₃.trans (hresponse₂.trans hresponse₁)) (by decide) ?_⟩
    show str "404 Not Found" = _
    decide +kernel
  | rootOptions =>
    have hbody : DefaultHandler.rootOptions.body m = [] := ite_self []
    have hother : ∀ key, iequals headerAllow key = false →
        ((HttpResponse.ofRequest m).headers.changeValue x headerAllow rootMethods).equalRange key = [] := by
      intro key hkey
      refine changeValue_other hkey ?_
      rw [hnew.headers]
      rfl
    refine ⟨_, rfl, ⟨⟨rfl, rfl, ?_, ?_, hnew.firstLine, ⟨?_, ?_⟩, hnew.sendsLength, hnew.unset⟩, rfl, ?_, ?_⟩⟩
    · rw [hbody]
      rfl
    · rw [hbody]
      rfl
    · exact hother _ (by decide)
    · exact hother _ (by decide)
    · show (HttpResponse.ofRequest m).getVersionString ++ [sp] ++ toString (HttpResponse.ofRequest m).statusCode ++
        [sp] ++ (HttpResponse.ofRequest m).statusMessage = _
      unfold DefaultHandler.firstLine DefaultHandler.status
      rw [hnew.line, List.append_assoc, List.append_assoc, ← List.append_assoc (toString _), hnew.status]
    · exact changeValue_equalRange _ _ _

/-- **A default handler sends one whole response**, with the status that it is for, and with one
`Content-Length`, which is right, and no `Transfer-Encoding`. -/
theorem default_answers (x : Externals) (conn : TcpConnection) (hopen : conn.isOpen = true) (m : HttpRequest)
    (d : DefaultHandler) :
    ∃ headers : Dict,
      (d.answer x m (.new conn m)).2.bytes =
        d.firstLine m ++ stringCrlf ++ (headerText (headers.map headerLine) ++ stringCrlf) ++ d.body m ∧
      headers.equalRange headerContentLength = [toString (d.body m).length] ∧
      headers.equalRange headerTransferEncoding = [] ∧
      headers.equalRange headerConnection = [if conn.getKeepAlive then str "Keep-Alive" else str "close"] ∧
      headers.equalRange headerAllow = if d = .rootOptions then [rootMethods] else [] := by
  obtain ⟨w, hw, hsends⟩ := answer_aboutToSend x conn m d
  obtain ⟨headers, hwhole, hbytes⟩ := send_whole (x := x) hsends.unsent (hsends.tcpConn ▸ hopen)
  refine ⟨headers, ?_, hwhole.contentLength, hwhole.transferEncoding, ?_, ?_⟩
  · rw [hw, hbytes, hsends.firstLine]
  · rw [hwhole.connection, hsends.tcpConn]
  · have hother := hwhole.other headerAllow (by decide) (by decide)
    rw [hsends.allow] at hother
    by_cases hd : d = .rootOptions
    · rw [if_pos hd] at hother ⊢
      exact List.perm_singleton.mp hother
    · rw [if_neg hd] at hother ⊢
      exact hother.eq_nil

theorem default_answers_missing :
    ∃ headers : Dict,
      (DefaultHandler.notFound.answer plainExternals { resource := str "/\"a" }
        (.new {} { resource := str "/\"a" })).2.bytes =
        DefaultHandler.notFound.firstLine { resource := str "/\"a" } ++ stringCrlf ++
          (headerText (headers.map headerLine) ++ stringCrlf) ++
          DefaultHandler.notFound.body { resource := str "/\"a" } ∧
      headers.equalRange headerContentLength = [str "124"] := by
  obtain ⟨headers, hbytes, hlength, _⟩ :=
    default_answers plainExternals {} rfl { resource := str "/\"a" } .notFound
  refine ⟨headers, hbytes, hlength.trans ?_⟩
  decide +kernel

/-! ## The resource in its string -/

def backslash : UInt8 := 92

theorem quote_not_mem (m : HttpRequest) : quote ∉ quotedResource m := by
  intro hq
  obtain ⟨c, _, hc⟩ := List.mem_map.mp hq
  split at hc
  · exact absurd hc (by decide)
  · rename_i hne
    exact hne hc

/-- **The resource stays in its string**, whatever bytes it has: the strings of the answer are those
that the handler means to send. -/
theorem notFound_strings (m : HttpRequest) :
    Quoting.stringsOf quote backslash (DefaultHandler.notFound.text m) =
      some [str "code", str "message", str "Not Found", str "description",
        str "The requested URL: [" ++ quotedResource m ++ str "] was not found on this server."] := by
  let opened : Quoting UInt8 :=
    { strings := [str "code", str "message", str "Not Found", str "description"]
      current := some (str "The requested URL: [", false) }
  have hstart : Quoting.scan quote backslash {} notFoundMsgStart = opened := by decide +kernel
  have hfinish : notFoundMsgFinish = str "] was not found on this server" ++ [dot] ++ quote :: str "\n\x7d" := by
    decide +kernel
  have htext : DefaultHandler.notFound.text m = notFoundMsgStart ++
      ((quotedResource m ++ str "] was not found on this server") ++ [dot] ++ quote :: str "\n\x7d") := by
    unfold DefaultHandler.text
    rw [hfinish]
    simp only [List.append_assoc]
  have hinside : quote ∉ quotedResource m ++ str "] was not found on this server" := by
    intro hq
    rcases List.mem_append.mp hq with hresource | hrest
    · exact quote_not_mem m hresource
    · exact absurd hrest (by decide +kernel)
  have hscan : Quoting.scan quote backslash {} (DefaultHandler.notFound.text m) =
      { strings := opened.strings ++ [str "The requested URL: [" ++
          (quotedResource m ++ str "] was not found on this server") ++ [dot]]
        current := none } := by
    rw [htext, Quoting.scan_append, hstart]
    exact Quoting.scan_string rfl hinside (by decide) (by decide) (by decide +kernel)
  unfold Quoting.stringsOf
  rw [hscan]
  dsimp only
  rw [if_pos rfl]
  have hdot : str "] was not found on this server." = str "] was not found on this server" ++ [dot] := by
    decide +kernel
  rw [hdot]
  simp only [opened, List.append_assoc, List.cons_append, List.nil_append]

end Pion.Proof
