import Pion.Proof.Dictionary
import Pion.Proof.RoundTrip
import Pion.Proof.Streaming
import Pion.Proof.Uri
import Pion.Proof.UrlEncoded

/-!
# A whole request, sent and received

A client sends the buffers of `prepare_buffers_for_send`, and the content behind them. The parser is
given what arrives in whatever pieces: it comes to the end of the request at the last byte of the
content, with the request that was sent.

With that, parameters travel. They are written into the content by
`use_query_params_for_post_content`, and `finish` takes them out of there again.
-/

namespace Pion.Proof

open Pion Lib

variable {x : Externals} {urlEncode : Bytes → Bytes}

/-- What is relied on of `sl::utils::parse_uint64`: it reads what `to_string` writes. -/
def ReadsDecimal (x : Externals) : Prop := ∀ n < 2 ^ 64, x.parseUint64 (toString n) = some (UInt64.ofNat n)

/-! ## Headers that there is one of -/

theorem equalRange_perm {d d' : Dict} (h : d.Perm d') (key : Bytes) :
    (d.equalRange key).Perm (d'.equalRange key) := (h.filter _).map _

theorem lookup_eq_head (d : Dict) (key : Bytes) : d.lookup key = (d.equalRange key).head? := by
  unfold Dict.lookup Dict.equalRange
  rw [List.head?_map, List.head?_filter]

/-- The order of the headers makes no difference to one that there is only one of. -/
theorem lookup_of_perm {d d' : Dict} (h : d'.Perm d) {key value : Bytes} (hone : d.equalRange key = [value]) :
    d'.lookup key = some value := by
  have hrange : d'.equalRange key = [value] := List.perm_singleton.mp (hone ▸ equalRange_perm h key)
  rw [lookup_eq_head, hrange]
  rfl

theorem lookup_none_of_perm {d d' : Dict} (h : d'.Perm d) {key : Bytes} (hnone : d.equalRange key = []) :
    d'.lookup key = none := by
  have hrange : d'.equalRange key = [] := List.Perm.eq_nil (hnone ▸ equalRange_perm h key)
  rw [lookup_eq_head, hrange]
  rfl

/-! ## The head -/

/-- A request with its content in a buffer, as a client sends it. -/
structure Sendable (r : HttpRequest) : Prop where
  serialisable : Serialisable r
  /-- The buffer is as long as the length says. -/
  buffer : r.contentBuf.length = r.contentLength
  /-- No header announces chunks, and there will be one with the length. -/
  plain : r.headers.equalRange headerTransferEncoding = []
  length : r.doNotSendContentLength = false

/-- The head that is sent in front of the content. -/
def sentHead (x : Externals) (r : HttpRequest) (keepAlive : Bool) : Bytes :=
  (r.prepareBuffersForSend x keepAlive false).2.flatten

/-- The headers that are sent. -/
def sentHeaders (x : Externals) (r : HttpRequest) (keepAlive : Bool) : Dict :=
  (r.prepareBuffersForSend x keepAlive false).1.headers

theorem sentHeaders_eq {r : HttpRequest} (h : r.doNotSendContentLength = false) (keepAlive : Bool) :
    sentHeaders x r keepAlive = (r.headers.changeValue x headerConnection
      (if keepAlive then str "Keep-Alive" else str "close")).changeValue x headerContentLength
        (toString r.contentLength) := by
  unfold sentHeaders
  rw [prepareBuffersForSend_frame]
  unfold HttpMessage.prepareHeadersForSend
  generalize (if keepAlive then str "Keep-Alive" else str "close") = connection
  dsimp only
  rw [if_neg Bool.false_ne_true, if_pos (by simpa [HttpMessage.changeHeader] using h)]
  rfl

theorem sentHeaders_length {r : HttpRequest} (h : r.doNotSendContentLength = false) (keepAlive : Bool) :
    (sentHeaders x r keepAlive).equalRange headerContentLength = [toString r.contentLength] := by
  rw [sentHeaders_eq h]
  exact changeValue_equalRange _ _ _

/-- The headers that sending does not touch. -/
theorem sentHeaders_other {r : HttpRequest} (h : r.doNotSendContentLength = false) (keepAlive : Bool)
    {key : Bytes} (hconn : iequals headerConnection key = false)
    (hlength : iequals headerContentLength key = false) :
    ((sentHeaders x r keepAlive).equalRange key).Perm (r.headers.equalRange key) := by
  rw [sentHeaders_eq h]
  exact (changeValue_equalRange_other hlength _ _).trans (changeValue_equalRange_other hconn _ _)

/-- What the header loop has of the request behind the head. -/
structure HeadRead (x : Externals) (r : HttpRequest) (keepAlive : Bool) (s : HeaderState) : Prop where
  method : s.1.method = r.method
  resource : s.1.resource = r.resource
  queryString : s.1.queryString = r.queryString
  message : ∃ headers : Dict, headers.Perm (sentHeaders x r keepAlive) ∧
    s.2 = { HttpRequest.fresh with
      versionMajor := r.versionMajor
      versionMinor := r.versionMinor
      firstLine := []
      headers := headers }

theorem sentHead_accepted {r : HttpRequest} (hr : Serialisable r) (keepAlive : Bool) :
    ∃ s, Accepts x (sentHead x r keepAlive) s ∧ HeadRead x r keepAlive s := by
  let lines := (sentHeaders x r keepAlive).map headerLine
  have hok : ∀ l ∈ lines, l.Readable := by
    intro l hl
    obtain ⟨e, he, rfl⟩ := List.mem_map.mp hl
    unfold sentHeaders at he
    rw [prepareBuffersForSend_frame] at he
    exact ⟨prepareHeadersForSend_ok hr.headers hr.contentLength keepAlive false e he, fun hb => by cases hb⟩
  let p₁ : HeaderFields := ({
    method := r.method, resource := r.resource, queryString := r.queryString
    } : HeaderFields).recordRaw (r.updateFirstLine ++ stringCrlf)
  let m₁ : HttpRequest := { HttpRequest.fresh with
    versionMajor := r.versionMajor, versionMinor := r.versionMinor, firstLine := [] }
  have hrun : Accepts x (sentHead x r keepAlive)
      (headersEnd p₁ lines, { m₁ with headers := addHeaders x [] lines }) := by
    unfold Accepts sentHead
    rw [prepareBuffersForSend_flatten hr keepAlive false, ← List.append_nil (headerText _ ++ stringCrlf)]
    exact (readRequestLine {} HttpRequest.fresh hr rfl _).trans
      (readHeaders lines p₁ m₁ hok hr.versionMajor_ne [])
  obtain ⟨hmethod, hresource, hquery⟩ := headersEnd_requestLine lines p₁
  have hperm : (addHeaders x [] lines).Perm (sentHeaders x r keepAlive) := by
    have h := addHeaders_perm x lines []
    rw [List.nil_append, List.map_map] at h
    rwa [show HeaderLine.entry ∘ headerLine = id from rfl, List.map_id] at h
  exact ⟨_, hrun, hmethod, hresource, hquery, _, hperm, rfl⟩

/-- The request that the head describes. -/
structure HeadGiven (x : Externals) (r : HttpRequest) (keepAlive : Bool) (m : HttpRequest) : Prop where
  method : m.method = r.method
  resource : m.resource = r.resource
  queryString : m.queryString = r.queryString
  versionMajor : m.versionMajor = r.versionMajor
  versionMinor : m.versionMinor = r.versionMinor
  headers : m.headers.Perm (sentHeaders x r keepAlive)
  queryParams : m.queryParams = (parseUrlEncoded x [] r.queryString).1

theorem HeadRead.given {r : HttpRequest} {keepAlive : Bool} {s : HeaderState} (h : HeadRead x r keepAlive s) :
    HeadGiven x r keepAlive (headRequest x s) ∧ (headRequest x s).contentBuf = [] ∧
      ((sentHeaders x r keepAlive).equalRange headerTransferEncoding = [] →
        (headRequest x s).isChunked = false) := by
  obtain ⟨hmethod, hresource, hquery, headers, hperm, hmessage⟩ := h
  have hparams : (headRequest x s).queryParams = (parseUrlEncoded x [] r.queryString).1 := by
    rw [← hquery]
    unfold headRequest beforeFraming updateMessageWithHeaderData HttpMessage.updateTransferEncodingUsingHeader
    rw [hmessage]
    dsimp only
    by_cases hnil : s.1.queryString = []
    · rw [if_pos hnil, hnil]
      split <;> rfl
    · rw [if_neg hnil]
      split <;> rfl
  have hchunked : (sentHeaders x r keepAlive).equalRange headerTransferEncoding = [] →
      (headRequest x s).isChunked = false := by
    intro hnone
    unfold headRequest beforeFraming updateMessageWithHeaderData HttpMessage.updateTransferEncodingUsingHeader
    rw [hmessage]
    dsimp only
    rw [lookup_none_of_perm hperm hnone]
    split <;> rfl
  refine ⟨⟨?_, ?_, ?_, ?_, ?_, ?_, hparams⟩, ?_, hchunked⟩
  all_goals
    unfold headRequest beforeFraming updateMessageWithHeaderData HttpMessage.updateTransferEncodingUsingHeader
    dsimp only
  · split <;> split <;> exact hmethod
  · split <;> split <;> exact hresource
  · split <;> split <;> exact hquery
  · rw [hmessage]
    split <;> split <;> rfl
  · rw [hmessage]
    split <;> split <;> rfl
  · rw [hmessage]
    split <;> split <;> exact hperm
  · rw [hmessage]
    split <;> split <;> rfl

theorem sent_framing (hdecimal : ReadsDecimal x) {r : HttpRequest} (hr : Sendable r) (keepAlive : Bool)
    {m : HttpRequest} (hheaders : m.headers.Perm (sentHeaders x r keepAlive)) (hchunked : m.isChunked = false) :
    framing x m = some (.length r.contentLength) := by
  unfold framing
  rw [if_neg (by simp [hchunked]), lookup_of_perm hheaders (sentHeaders_length hr.length keepAlive)]
  dsimp only
  rw [hdecimal _ hr.serialisable.contentLength, Option.map_some,
    UInt64.toNat_ofNat_of_lt' hr.serialisable.contentLength]

/-! ## The content -/

/-- The request with its content in it, as `finish` finds it. -/
def filled (m : HttpRequest) (data : Bytes) : HttpRequest :=
  computeMsgStatus { m with contentLength := data.length, contentBuf := data, isValid := true } true

theorem parseEnd_buffered {g : Progress} (hk : g.parser.payloadHandler = none)
    (hheaders : g.parser.parseHeadersOnly = false) (t : Nat) :
    let r := parseEnd x g t (.ok .true)
    let f := parsePostContent x (computeMsgStatus { g.msg with isValid := true } true)
    r.unread = g.unread ∧ r.msg = f.1 ∧ (f.2 = none → r.rc = .ok .true) := by
  unfold parseEnd
  dsimp only
  rw [finish_end, if_pos ⟨by rw [hk]; rfl, by rw [hheaders]; rfl⟩]
  generalize parsePostContent x _ = f
  obtain ⟨m, e⟩ := f
  cases e with
  | none => exact ⟨rfl, rfl, fun _ => rfl⟩
  | some e => exact ⟨rfl, rfl, fun h => by cases h⟩

/-- **A whole request with its content**, in one buffer. -/
theorem parse_filled (p : HttpParser) (hp : Unused p) (hk : p.payloadHandler = none) {head : Bytes}
    {s : HeaderState} (hhead : Accepts x head s) {data : Bytes} (hf : framing x (headRequest x s) = some (.length data.length))
    (hempty : (headRequest x s).contentBuf = []) (hmax : data.length ≤ p.maxContentLength) (rest : Bytes) :
    let r := parse x noHook p HttpRequest.fresh none (head ++ (data ++ rest))
    let f := parsePostContent x (filled (headRequest x s) data)
    r.unread = rest ∧ r.msg = f.1 ∧ (f.2 = none → r.rc = .ok .true) := by
  intro r f
  have hhook : Hooked x noHook p s (.length data.length) none := hk ▸ noHook_hooked s _
  have hpass := hhook.parseSwitch_head hp hhead hf (data ++ rest)
  have hend : ∃ g t, parseLoop x noHook 3 (opened p HttpRequest.fresh none (head ++ (data ++ rest))) 0 =
      (g, t, .ok .true) ∧ g.unread = rest ∧ g.parser.payloadHandler = none ∧
        g.parser.parseHeadersOnly = false ∧ g.msg = { headRequest x s with contentLength := data.length, contentBuf := data } := by
    cases data with
    | nil =>
      -- there is nothing behind the head
      refine ⟨_, _, parseLoop_done hpass (fun h => by cases h) 2, rfl, rfl, hp.headersOnly, ?_⟩
      show { headRequest x s with contentLength := 0 } =
        { headRequest x s with contentLength := 0, contentBuf := [] }
      rw [← hempty]
    | cons c cs =>
      rw [parseLoop_next hpass (fun h => by cases h) 2]
      let g := behindHead x p s head.length (.length (c :: cs).length) none ((c :: cs) ++ rest)
      obtain ⟨t', hpass'⟩ := parseSwitch_wholeContent x noHook (g := g) (calm_none rfl) rfl rfl
        (List.cons_ne_nil c cs) rfl head.length
      have hbuf : g.msg.contentBuf.length = (c :: cs).length := by
        show (List.replicate (min (c :: cs).length p.maxContentLength) (0 : UInt8)).length = _
        rw [List.length_replicate, Nat.min_eq_left hmax]
      rw [takeContent_cache (by exact Bool.false_ne_true),
        storeContent_whole (p := g.parser) rfl hmax hbuf] at hpass'
      refine ⟨_, t', parseLoop_done hpass' (fun h => by cases h) 1, List.drop_left, rfl, hp.headersOnly, ?_⟩
      show { headRequest x s with
        contentLength := min (c :: cs).length p.maxContentLength
        contentBuf := c :: cs } = _
      rw [Nat.min_eq_left hmax]
  obtain ⟨g, t, hloop, hunread, hhandler, honly, hmsg⟩ := hend
  have hfinal := parseEnd_buffered (x := x) hhandler honly t
  rw [hmsg] at hfinal
  show (parse x noHook p HttpRequest.fresh none _).unread = rest ∧ _
  rw [show r = _ from parse_of_loop hloop, parse_of_loop hloop]
  exact ⟨hfinal.1.trans hunread, hfinal.2⟩

theorem filled_content (m : HttpRequest) (data : Bytes) : (filled m data).content = data := List.take_length

/-- A form is taken apart by its content type. -/
theorem parsePostContent_cases {m : HttpRequest}
    (hform : contentTypeMultipartFormData.isPrefixOf (m.getHeader headerContentType) = false) :
    (parsePostContent x m).2 = none ∧ (parsePostContent x m).1.queryParams =
      if contentTypeUrlencoded.isPrefixOf (m.getHeader headerContentType) then
        (parseUrlEncoded x m.queryParams m.content).1
      else m.queryParams := by
  unfold parsePostContent
  dsimp only
  split
  · exact ⟨rfl, rfl⟩
  · rw [if_neg (by simp [hform])]
    exact ⟨rfl, rfl⟩

/-- What is received of a request that is sent with its content. -/
structure Received (x : Externals) (r : HttpRequest) (keepAlive : Bool) (m : HttpRequest) : Prop where
  method : m.method = r.method
  resource : m.resource = r.resource
  queryString : m.queryString = r.queryString
  versionMajor : m.versionMajor = r.versionMajor
  versionMinor : m.versionMinor = r.versionMinor
  headers : m.headers.Perm (sentHeaders x r keepAlive)
  content : m.content = r.content
  valid : m.isValid = true
  queryParams : m.queryParams =
    if contentTypeUrlencoded.isPrefixOf (m.getHeader headerContentType) then
      (parseUrlEncoded x (parseUrlEncoded x [] r.queryString).1 r.content).1
    else (parseUrlEncoded x [] r.queryString).1

theorem HeadGiven.received {r m : HttpRequest} {keepAlive : Bool} (h : HeadGiven x r keepAlive m)
    (hform : contentTypeMultipartFormData.isPrefixOf (m.getHeader headerContentType) = false) :
    (parsePostContent x (filled m r.content)).2 = none ∧
      Received x r keepAlive (parsePostContent x (filled m r.content)).1 := by
  obtain ⟨hnone, hparams⟩ := parsePostContent_cases (x := x) (m := filled m r.content) hform
  have hframe := parsePostContent_frame (x := x) (filled m r.content)
  rw [filled_content] at hparams
  have hheaders : (parsePostContent x (filled m r.content)).1.headers = m.headers := by rw [hframe]; rfl
  have hmethod : (parsePostContent x (filled m r.content)).1.method = m.method := by rw [hframe]; rfl
  have hresource : (parsePostContent x (filled m r.content)).1.resource = m.resource := by rw [hframe]; rfl
  have hquery : (parsePostContent x (filled m r.content)).1.queryString = m.queryString := by rw [hframe]; rfl
  refine ⟨hnone, hmethod.trans h.method, hresource.trans h.resource, hquery.trans h.queryString, ?_, ?_,
    hheaders ▸ h.headers, ?_, ?_, ?_⟩
  · rw [hframe]
    exact h.versionMajor
  · rw [hframe]
    exact h.versionMinor
  · rw [hframe]
    exact filled_content m r.content
  · rw [hframe]
    rfl
  · rw [hparams]
    unfold HttpMessage.getHeader
    rw [hheaders, show (filled m r.content).queryParams = _ from h.queryParams]
    rfl

theorem sentHead_ne {r : HttpRequest} (hr : Serialisable r) (keepAlive : Bool) : sentHead x r keepAlive ≠ [] := by
  obtain ⟨s, hhead, _⟩ := sentHead_accepted (x := x) hr keepAlive
  intro hnil
  rw [hnil] at hhead
  cases hhead

/-- A request with its content, in one piece. -/
theorem parse_received (hdecimal : ReadsDecimal x) {r : HttpRequest} (hr : Sendable r) (keepAlive : Bool)
    (hform : ∀ v ∈ r.headers.equalRange headerContentType, contentTypeMultipartFormData.isPrefixOf v = false)
    {max i j : Nat} (hmax : r.contentLength ≤ max) (rest : Bytes) :
    let read := parse x noHook (HttpParser.fresh max i j) HttpRequest.fresh none
      (sentHead x r keepAlive ++ (r.content ++ rest))
    read.rc = .ok .true ∧ read.unread = rest ∧ Received x r keepAlive read.msg := by
  intro read
  obtain ⟨s, hhead, hread⟩ := sentHead_accepted (x := x) hr.serialisable keepAlive
  obtain ⟨hgiven, hempty, hchunked⟩ := hread.given
  have hlength : r.content.length = r.contentLength := by
    unfold HttpMessage.content
    rw [← hr.buffer, List.take_length]
  have hplain : (sentHeaders x r keepAlive).equalRange headerTransferEncoding = [] :=
    List.Perm.eq_nil (hr.plain ▸ sentHeaders_other hr.length keepAlive (by decide +kernel) (by decide +kernel))
  have hframing := sent_framing hdecimal hr keepAlive hgiven.headers (hchunked hplain)
  rw [← hlength] at hframing
  -- whatever the content type is that is found, it is one that was sent
  have htype : contentTypeMultipartFormData.isPrefixOf ((headRequest x s).getHeader headerContentType) = false := by
    have hrange := (equalRange_perm hgiven.headers headerContentType).trans
      (sentHeaders_other hr.length keepAlive (by decide +kernel) (by decide +kernel))
    unfold HttpMessage.getHeader Dict.getValue
    rw [lookup_eq_head]
    cases hvalues : (headRequest x s).headers.equalRange headerContentType with
    | nil => decide
    | cons v vs =>
      rw [hvalues] at hrange
      exact hform v (hrange.mem_iff.mp List.mem_cons_self)
  obtain ⟨hnone, hreceived⟩ := hgiven.received htype
  obtain ⟨hunread, hmsg, hrc⟩ := parse_filled (HttpParser.fresh max i j) (fresh_unused max i j) rfl hhead hframing
    hempty (le_of_eq_of_le hlength hmax) rest
  exact ⟨hrc hnone, hunread, hmsg ▸ hreceived⟩

/-- **A request is received as it was sent**, with its content, however it is cut into pieces: the
parser is done at the last byte of the content. -/
theorem request_received (hdecimal : ReadsDecimal x) (r : HttpRequest) (hr : Sendable r) (keepAlive : Bool)
    (hform : ∀ v ∈ r.headers.equalRange headerContentType, contentTypeMultipartFormData.isPrefixOf v = false)
    (max i j : Nat) (hmax : r.contentLength ≤ max) (bufs : List Bytes) (rest : Bytes) (hbufs : ∀ b ∈ bufs, b ≠ [])
    (hstream : bufs.flatten = sentHead x r keepAlive ++ (r.content ++ rest)) :
    let read := feed x noHook (idle (HttpParser.fresh max i j)) bufs
    read.rc = .ok .true ∧ read.unread = rest ∧ Received x r keepAlive read.msg := by
  intro read
  obtain ⟨hrc, hunread, hreceived⟩ := parse_received hdecimal hr keepAlive hform (i := i) (j := j) hmax rest
  have hsame : SameResult read _ := feed_idle (x := x) noHook_calm (fresh_calm max i j) hbufs
    (by rw [hstream]; exact fun h => sentHead_ne hr.serialisable keepAlive (List.append_eq_nil_iff.mp h).1)
  rw [hstream] at hsame
  exact ⟨hsame.rc.trans hrc, hsame.unread.trans hunread, hsame.msg ▸ hreceived⟩

/-- A request with three bytes of content. -/
def putRequest : HttpRequest where
  method := requestMethodPut
  resource := str "/a"
  queryString := str "b=c"
  headers := [(str "Host", str "localhost")]
  contentLength := 3
  contentBuf := str "xyz"

/-- It arrives in two pieces, the second with some of the next request. -/
def putPieces : List Bytes :=
  let stream := sentHead plainExternals putRequest true ++ (putRequest.content ++ str "GET")
  [stream.take 50, stream.drop 50]

theorem request_received_put :
    let read := feed plainExternals noHook (idle (HttpParser.fresh 100 0 0)) putPieces
    putPieces = [str "PUT /a?b=c HTTP/1.1\r\nHost: localhost\r\nConnection: ",
        str "Keep-Alive\r\nContent-Length: 3\r\n\r\nxyzGET"] ∧
      read.rc = .ok .true ∧ read.unread = str "GET" ∧ Received plainExternals putRequest true read.msg := by
  have hdecimal : ReadsDecimal plainExternals := fun n h => parseDecimal_toString h
  have hsendable : Sendable putRequest := ⟨by decide +kernel, rfl, by decide +kernel, rfl⟩
  have hstream : putPieces.flatten =
      sentHead plainExternals putRequest true ++ (putRequest.content ++ str "GET") := by
    unfold putPieces
    simp only [List.flatten_cons, List.flatten_nil, List.append_nil, List.take_append_drop]
  exact ⟨by decide +kernel, request_received hdecimal putRequest hsendable true (by decide +kernel) 100 0 0
    (by decide) putPieces (str "GET") (by decide +kernel) hstream⟩

/-! ## Forms -/

/-- What is written by `make_query_string` is taken apart again. -/
theorem parseUrlEncoded_written (hencodes : Encodes x urlEncode) {params : Dict}
    (hparams : ∀ e ∈ params, ParamOk urlEncode e) (dict : Dict) :
    (parseUrlEncoded x dict (HttpRequest.makeQueryString urlEncode params)).1.Perm (params ++ dict) := by
  by_cases hne : params = []
  · rw [hne]
    exact List.Perm.refl dict
  · have hfits : ∀ seg ∈ params.map (writtenParam urlEncode), SegmentFits seg := by
      intro seg hseg
      obtain ⟨e, he, rfl⟩ := List.mem_map.mp hseg
      exact (hencodes.segment (hparams e he) []).1
    have hpairs : (params.map (writtenParam urlEncode)).flatMap (segmentPairs x.urlDecode (x.urlDecode [])) =
        params := by
      rw [List.flatMap_map, List.flatMap_congr fun e he => (hencodes.segment (hparams e he) _).2]
      exact List.flatMap_singleton' params
    have hread := (readSegments (x := x) _ dict counts_of_mem_unfolded).1
      (by rw [hencodes.unfolded hne, hencodes.splitOn hne]; exact hfits)
    rw [← parseUrlEncoded_loop] at hread
    unfold queryPairs at hread
    rw [hencodes.unfolded hne, hencodes.splitOn hne, hpairs] at hread
    rw [hread]
    exact foldl_insert_perm x params dict

theorem posted_sendable {r : HttpRequest} (hr : Serialisable r)
    (hplain : r.headers.equalRange headerTransferEncoding = []) (hlength : r.doNotSendContentLength = false)
    (hword : (HttpRequest.makeQueryString urlEncode r.queryParams).length < 2 ^ 64) :
    Sendable (r.useQueryParamsForPostContent x urlEncode) := by
  have htype : HeaderOk (headerContentType, contentTypeUrlencoded) := by decide +kernel
  have hother : iequals headerContentType headerTransferEncoding = false := by decide +kernel
  refine ⟨⟨?_, ?_, ?_, hr.resource_byte, hr.resource_length, hr.query_byte, hr.query_length, hr.version,
    changeValue_ok hr.headers htype, .inl rfl, hword⟩, rfl, changeValue_other hother hplain, hlength⟩
  · show requestMethodPost ≠ []
    decide +kernel
  · show ∀ c ∈ requestMethodPost, TokenByte c
    decide +kernel
  · show requestMethodPost.length ≤ methodMax
    decide +kernel

/-- **The parameters of a form are received as they were posted**, beside those of the query string,
however the request is cut into pieces. -/
theorem form_received (hencodes : Encodes x urlEncode) (hdecimal : ReadsDecimal x) (r : HttpRequest)
    (hr : Serialisable r) (hplain : r.headers.equalRange headerTransferEncoding = [])
    (hlength : r.doNotSendContentLength = false) (hparams : ∀ e ∈ r.queryParams, ParamOk urlEncode e)
    (keepAlive : Bool) (max i j : Nat)
    (hmax : (HttpRequest.makeQueryString urlEncode r.queryParams).length ≤ max) (hword : max < 2 ^ 64)
    (bufs : List Bytes) (rest : Bytes) (hbufs : ∀ b ∈ bufs, b ≠ [])
    (hstream : bufs.flatten = sentHead x (r.useQueryParamsForPostContent x urlEncode) keepAlive ++
      ((r.useQueryParamsForPostContent x urlEncode).content ++ rest)) :
    let read := feed x noHook (idle (HttpParser.fresh max i j)) bufs
    read.rc = .ok .true ∧ read.unread = rest ∧ read.msg.method = requestMethodPost ∧
      read.msg.resource = r.resource ∧
      read.msg.queryParams.Perm (r.queryParams ++ (parseUrlEncoded x [] r.queryString).1) := by
  intro read
  have hsendable := posted_sendable (x := x) hr hplain hlength (lt_of_le_of_lt hmax hword)
  have htype : (r.useQueryParamsForPostContent x urlEncode).headers.equalRange headerContentType =
      [contentTypeUrlencoded] := changeValue_equalRange r.headers headerContentType contentTypeUrlencoded
  have hform : ∀ v ∈ (r.useQueryParamsForPostContent x urlEncode).headers.equalRange headerContentType,
      contentTypeMultipartFormData.isPrefixOf v = false := by
    intro v hv
    rw [htype, List.mem_singleton] at hv
    rw [hv]
    decide +kernel
  obtain ⟨hrc, hunread, hreceived⟩ := parse_received hdecimal hsendable keepAlive hform (i := i) (j := j) hmax rest
  have hsame : SameResult read _ := feed_idle (x := x) noHook_calm (fresh_calm max i j) hbufs
    (by rw [hstream]; exact fun h => sentHead_ne hsendable.serialisable keepAlive (List.append_eq_nil_iff.mp h).1)
  rw [hstream] at hsame
  rw [← hsame.msg] at hreceived
  -- the one content type that was sent is the one that is found
  have hfound : read.msg.getHeader headerContentType = contentTypeUrlencoded := by
    have hrange := (equalRange_perm hreceived.headers headerContentType).trans
      (sentHeaders_other hsendable.length keepAlive (by decide +kernel) (by decide +kernel))
    rw [htype] at hrange
    unfold HttpMessage.getHeader Dict.getValue
    rw [lookup_eq_head, List.perm_singleton.mp hrange]
    rfl
  have hcontent : (r.useQueryParamsForPostContent x urlEncode).content =
      HttpRequest.makeQueryString urlEncode r.queryParams := List.take_length
  refine ⟨hsame.rc.trans hrc, hsame.unread.trans hunread, hreceived.method, hreceived.resource, ?_⟩
  rw [hreceived.queryParams, hfound, if_pos (by decide +kernel), hcontent]
  exact parseUrlEncoded_written hencodes hparams _

/-- A form with the parameters of `someParams`, and one in the query string. -/
def formToPost : HttpRequest where
  resource := str "/form"
  queryString := str "q=1"
  queryParams := someParams

/-- The form, as it is sent. -/
def formSent : HttpRequest := formToPost.useQueryParamsForPostContent percentExternals percentEncode

def formPieces : List Bytes :=
  let stream := sentHead percentExternals formSent false ++ (formSent.content ++ [])
  [stream.take 60, stream.drop 60]

theorem form_received_some :
    let read := feed percentExternals noHook (idle (HttpParser.fresh 100 0 0)) formPieces
    formSent.content = str "a=1%2C2%263%3D4&A=&b%20c=%0D%0A%25&a=1%2C2%263%3D4" ∧
      read.rc = .ok .true ∧ read.unread = [] ∧ read.msg.method = requestMethodPost ∧
      read.msg.resource = str "/form" ∧
      read.msg.queryParams.Perm (someParams ++ (parseUrlEncoded percentExternals [] (str "q=1")).1) := by
  have hdecimal : ReadsDecimal percentExternals := fun n h => parseDecimal_toString h
  have hok : ∀ e ∈ someParams, ParamOk percentEncode e := by
    have h : ∀ e ∈ someParams, e.1 ≠ [] ∧ (percentEncode e.1).length ≤ queryNameMax ∧
        (percentEncode e.2).length ≤ queryValueMax := by decide +kernel
    exact fun e he => ⟨(h e he).1, (h e he).2.1, (h e he).2.2⟩
  have hstream : formPieces.flatten = sentHead percentExternals formSent false ++ (formSent.content ++ []) := by
    unfold formPieces
    simp only [List.flatten_cons, List.flatten_nil, List.append_nil, List.take_append_drop]
  exact ⟨by decide +kernel, form_received percentEncode_encodes hdecimal formToPost (by decide +kernel)
    (by decide +kernel) rfl hok false 100 0 0 (by decide +kernel) (by decide) formPieces [] (by decide +kernel)
    hstream⟩

end Pion.Proof
