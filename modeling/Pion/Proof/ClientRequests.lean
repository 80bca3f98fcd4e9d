import Pion.Proof.Pipelining
import Pion.Proof.SentRequest
import Pion.Proof.Submatch

/-!
# From clients to handlers

A client sends requests one behind another, each as `prepare_buffers_for_send` writes it with its content
behind it, and the socket delivers the bytes in whatever pieces. The server passes on the requests that
were sent, in the order in which they were sent, each to the handler of the longest resource above its own,
and the contents go to the payload handlers.
-/

namespace Pion.Proof

open Pion Lib

variable {x : Externals} {server : HttpServer}

/-! ## Who answers -/

/-- A request that is no upgrade is answered by the handler of the longest resource above its own. -/
inductive RoutedTo (server : HttpServer) (r : HttpRequest) : Dispatch → Prop where
  | rootOptions (hmethod : requestMethodOptions = r.method)
      (hpath : str "*" = stripTrailingSlash r.resource ∨ str "/*" = stripTrailingSlash r.resource) :
      RoutedTo server r .rootOptions
  | handler (i : MethodMap) (k : Bytes) (h : Handler) (hi : methodMap r.method = some i)
      (habove : Above k (stripTrailingSlash r.resource)) (hk : (entriesOf server.handlers i).lookup k = some h)
      (hlongest : ∀ k', Above k' (stripTrailingSlash r.resource) → (entriesOf server.handlers i).lookup k' ≠ none →
        k'.length ≤ k.length) : RoutedTo server r (.handler h)
  | notFound (i : MethodMap) (hi : methodMap r.method = some i)
      (hnone : ∀ k, Above k (stripTrailingSlash r.resource) → (entriesOf server.handlers i).lookup k = none) :
      RoutedTo server r .notFound

theorem handleRequest_routed {conn conn' : TcpConnection} {ec : ReadError} {m : HttpRequest} {d : Dispatch}
    (h : server.handleRequest conn ec m = (conn', .ok d)) (hkeep : conn'.getKeepAlive = true)
    (hup : isWebsocketUpgrade m = false) : RoutedTo server m d := by
  unfold HttpServer.handleRequest at h
  split at h
  · -- the connection would be closed
    obtain ⟨rfl, _⟩ := Prod.mk.inj h
    cases hkeep
  · rw [hup, if_neg Bool.false_ne_true] at h
    dsimp only at h
    split at h
    · rename_i hroot
      obtain ⟨_, hd⟩ := Prod.mk.inj h
      obtain rfl := Except.ok.inj hd
      exact .rootOptions hroot.1 hroot.2
    · rw [chooseMapByMethod_eq] at h
      cases hi : methodMap m.method with
      | none =>
        rw [hi] at h
        cases (Prod.mk.inj h).2
      | some i =>
        rw [hi] at h
        dsimp only at h
        obtain ⟨hsome, hnone⟩ := (findSubmatch_searches (entriesOf server.handlers i)
          (stripTrailingSlash m.resource)).longest
        cases hfound : findSubmatch (entriesOf server.handlers i) (stripTrailingSlash m.resource) with
        | some v =>
          rw [hfound] at h
          obtain rfl := Except.ok.inj (Prod.mk.inj h).2
          obtain ⟨k, habove, hk, hlongest⟩ := hsome v hfound
          exact .handler i k v hi habove hk hlongest
        | none =>
          rw [hfound] at h
          obtain rfl := Except.ok.inj (Prod.mk.inj h).2
          exact .notFound i hi (hnone hfound)

/-- The request that waits for its answer is the last one that was passed on. -/
def AnswersLast (server : HttpServer) (c : Session) : Prop :=
  ∀ d, c.phase = .handling d → ∃ h conn ec, c.handled.getLast? = some h ∧
    server.handleRequest conn ec h.request = (c.conn, .ok d)

theorem finishedReading_answersLast (c : Session) (ec : ReadError) :
    AnswersLast server (c.finishedReading server ec) := by
  intro d hd
  unfold Session.finishedReading at hd ⊢
  dsimp only at hd ⊢
  refine ⟨_, c.conn, ec, List.getLast?_concat, ?_⟩
  dsimp only
  cases hresult : (server.handleRequest c.conn ec c.reader.request).2 with
  | error e =>
    rw [hresult] at hd
    cases hd
  | ok d' =>
    rw [hresult] at hd
    obtain rfl := Phase.handling.inj hd
    exact Prod.ext rfl hresult

theorem consumeBytes_answersLast (c : Session) : AnswersLast server (c.consumeBytes x server) := by
  unfold Session.consumeBytes Session.afterParse
  dsimp only
  split
  · exact fun d hd => by cases hd
  · exact finishedReading_answersLast _ _
  · exact finishedReading_answersLast _ _
  · exact fun d hd => by cases hd

theorem handleConnection_answersLast (c : Session) (i j : Nat) :
    AnswersLast server (c.handleConnection x server i j) := by
  unfold Session.handleConnection Session.receive
  split
  · exact consumeBytes_answersLast _
  · exact fun d hd => by cases hd

theorem Served.answersLast {reads : List Bytes} {c : Session} (h : Served x server reads c) :
    AnswersLast server c := by
  cases h with
  | accepted i j => exact handleConnection_answersLast _ i j
  | read h data hphase hne hle => exact consumeBytes_answersLast _
  | finish h d i j hphase =>
    unfold Session.finishConnection
    split
    · exact handleConnection_answersLast _ i j
    · exact fun d hd => by cases hd

/-! ## On the wire -/

/-- A request that this server can take: its content is for a payload handler. -/
structure Deliverable (server : HttpServer) (r : HttpRequest) : Prop where
  sendable : Sendable r
  version : r.versionMajor = 1 ∧ r.versionMinor = 1
  method : r.method ∈ supportedMethods
  content : r.content = [] ∨ HasPayload server r

/-- What a client sends. -/
def clientText (x : Externals) (r : HttpRequest) : Bytes := sentHead x r true ++ r.content

/-- The request as the server's parser finds it. -/
structure OnWire (x : Externals) (r : HttpRequest) (q : WireRequest) : Prop where
  head : q.head = sentHead x r true
  accepts : Accepts x q.head q.state
  read : HeadRead x r true q.state
  body : q.body = .sized r.content

theorem OnWire.text {r : HttpRequest} {q : WireRequest} (h : OnWire x r q) : q.text = clientText x r := by
  unfold WireRequest.text clientText
  rw [h.head, h.body]
  rfl

theorem exists_onWire (x : Externals) {r : HttpRequest} (hr : Serialisable r) : ∃ q, OnWire x r q := by
  obtain ⟨s, hhead, hread⟩ := sentHead_accepted (x := x) hr true
  exact ⟨{ head := sentHead x r true, state := s, body := .sized r.content }, rfl, hhead, hread, rfl⟩

theorem exists_allOnWire (x : Externals) : ∀ rs : List HttpRequest, (∀ r ∈ rs, Serialisable r) →
    ∃ qs, List.Forall₂ (OnWire x) rs qs := by
  intro rs
  induction rs with
  | nil => exact fun _ => ⟨[], .nil⟩
  | cons r rs ih =>
    intro h
    obtain ⟨q, hq⟩ := exists_onWire x (h r List.mem_cons_self)
    obtain ⟨qs, hqs⟩ := ih fun r' hr' => h r' (List.mem_cons_of_mem _ hr')
    exact ⟨q :: qs, .cons hq hqs⟩

theorem allOnWire_stream {rs : List HttpRequest} {qs : List WireRequest} (h : List.Forall₂ (OnWire x) rs qs) :
    streamOf qs = (rs.map (clientText x)).flatten := by
  induction h with
  | nil => rfl
  | cons hq _ ih => rw [streamOf_cons, hq.text, ih, List.map_cons, List.flatten_cons]

/-- The one `Connection` header that is sent. -/
theorem sentHeaders_connection {r : HttpRequest} (h : r.doNotSendContentLength = false) :
    (sentHeaders x r true).equalRange headerConnection = [str "Keep-Alive"] := by
  rw [sentHeaders_eq h, if_pos rfl]
  have hother : (((r.headers.changeValue x headerConnection (str "Keep-Alive")).changeValue x headerContentLength
      (toString r.contentLength)).equalRange headerConnection).Perm _ :=
    changeValue_equalRange_other (by decide +kernel) _ _
  rw [changeValue_equalRange] at hother
  exact List.perm_singleton.mp hother

theorem content_length {r : HttpRequest} (h : Sendable r) : r.content.length = r.contentLength := by
  unfold HttpMessage.content
  rw [← h.buffer, List.take_length]

theorem OnWire.pipelinable (hdecimal : ReadsDecimal x) {r : HttpRequest} {q : WireRequest} (h : OnWire x r q)
    (hr : Deliverable server r) : Pipelinable x server q := by
  obtain ⟨hgiven, _, hchunked⟩ := h.read.given
  have hsendable := hr.sendable
  have hplain : (sentHeaders x r true).equalRange headerTransferEncoding = [] :=
    List.Perm.eq_nil (hsendable.plain ▸ sentHeaders_other hsendable.length true (by decide +kernel) (by decide +kernel))
  have hconnection : (headRequest x q.state).headers.equalRange headerConnection = [str "Keep-Alive"] :=
    List.perm_singleton.mp (sentHeaders_connection hsendable.length ▸ equalRange_perm hgiven.headers headerConnection)
  refine ⟨h.accepts, ⟨?_, ?_⟩, ?_, ?_, ?_, ?_, ?_⟩
  · rw [h.body]
    show _ = some (Framing.length r.content.length)
    rw [content_length hsendable]
    exact sent_framing hdecimal hsendable true hgiven.headers (hchunked hplain)
  · rw [h.body]
    exact trivial
  · exact ⟨hgiven.versionMajor.trans hr.version.1, hgiven.versionMinor.trans hr.version.2⟩
  · show (headRequest x q.state).getHeader headerConnection ≠ str "close"
    unfold HttpMessage.getHeader Dict.getValue
    rw [lookup_eq_head, hconnection]
    decide +kernel
  · exact hgiven.method.symm ▸ hr.method
  · show isWebsocketUpgrade (headRequest x q.state) = false
    have hnot : (headRequest x q.state).hasHeaderValue headerConnection (str "Upgrade") = false := by
      unfold HttpMessage.hasHeaderValue
      rw [hconnection]
      decide +kernel
    unfold isWebsocketUpgrade
    rw [hnot]
    simp
  · rw [h.body]
    rcases hr.content with hempty | hpayload
    · exact .inl hempty
    · refine .inr ⟨rfl, ?_⟩
      unfold HasPayload HttpServer.findPayload at hpayload ⊢
      rw [show (q.request x).method = r.method from hgiven.method,
        show (q.request x).resource = r.resource from hgiven.resource]
      exact hpayload

/-! ## What arrives -/

/-- The request that is passed on is the one that was sent, and the payload handler has got its content. -/
structure Arrived (x : Externals) (r : HttpRequest) (h : Handled) : Prop where
  method : h.request.method = r.method
  resource : h.request.resource = r.resource
  queryString : h.request.queryString = r.queryString
  version : h.request.versionMajor = r.versionMajor ∧ h.request.versionMinor = r.versionMinor
  headers : h.request.headers.Perm (sentHeaders x r true)
  valid : h.request.isValid = true
  payload : h.payload = r.content

theorem finished_queryString (k : Option PayloadHandler) (f : Framing) (m : HttpRequest) :
    (finished x k (f.request 1 m)).queryString = m.queryString := by
  have hrequest : (f.request 1 m).queryString = m.queryString := by
    rcases f with _ | n | _
    · rfl
    · cases n <;> rfl
    · rfl
  unfold finished
  split
  · rw [parsePostContent_frame]
    exact hrequest
  · exact hrequest

theorem OnWire.arrived (hdecimal : ReadsDecimal x) (hserver : CalmServer server) {r : HttpRequest} {q : WireRequest}
    (h : OnWire x r q) (hr : Deliverable server r) : Arrived x r (q.alone x server 0 0) := by
  have hq := h.pipelinable hdecimal hr
  obtain ⟨hgiven, _, _⟩ := h.read.given
  obtain ⟨found, hfound, _⟩ := hq.found
  obtain ⟨_, _, _, hdata, hmsg⟩ := parse_server hserver 0 0 hq.accepts hq.fits hfound []
  rw [List.append_nil] at hdata hmsg
  obtain ⟨hroute, hvalid⟩ := finished_routing (x := x) (found.map (· (q.body.framing.request 1 (q.request x))))
    q.body.framing (q.request x)
  have hquery := finished_queryString (x := x) (found.map (· (q.body.framing.request 1 (q.request x))))
    q.body.framing (q.request x)
  have hrequest : (q.alone x server 0 0).request =
      finished x (found.map (· (q.body.framing.request 1 (q.request x)))) (q.body.framing.request 1 (q.request x)) :=
    hmsg
  unfold routing at hroute
  simp only [Prod.mk.injEq] at hroute
  obtain ⟨hheaders, hmajor, hminor, hmethod, hresource⟩ := hroute
  rw [← hrequest] at hheaders hmajor hminor hmethod hresource hvalid hquery
  refine ⟨hmethod.trans hgiven.method, hresource.trans hgiven.resource, hquery.trans hgiven.queryString,
    ⟨hmajor.trans hgiven.versionMajor, hminor.trans hgiven.versionMinor⟩, hheaders ▸ hgiven.headers, hvalid, ?_⟩
  have hpayload : (q.alone x server 0 0).payload = if found.isSome then q.body.data else [] := hdata
  rw [hpayload, h.body]
  by_cases hsome : found.isSome = true
  · rw [if_pos hsome]
    rfl
  · rw [if_neg hsome]
    rcases hr.content with hempty | ⟨creator, hcreator⟩
    · exact hempty.symm
    · -- there is a handler for the content
      have hsame : server.findPayload (q.request x) = server.findPayload r := by
        unfold HttpServer.findPayload
        rw [show (q.request x).method = r.method from hgiven.method,
          show (q.request x).resource = r.resource from hgiven.resource]
      rw [hsame, hcreator] at hfound
      obtain rfl := Except.ok.inj hfound
      exact absurd rfl hsome

/-! ## Runs -/

theorem allOnWire_pipelinable (hdecimal : ReadsDecimal x) {rs : List HttpRequest} {qs : List WireRequest}
    (h : List.Forall₂ (OnWire x) rs qs) (hrs : ∀ r ∈ rs, Deliverable server r) :
    ∀ q ∈ qs, Pipelinable x server q := by
  induction h with
  | nil => exact fun q hq => by cases hq
  | cons hq _ ih =>
    refine List.forall_mem_cons.mpr ⟨hq.pipelinable hdecimal (hrs _ List.mem_cons_self), ?_⟩
    exact ih fun r hr => hrs r (List.mem_cons_of_mem _ hr)

theorem allOnWire_arrived (hdecimal : ReadsDecimal x) (hserver : CalmServer server) {rs : List HttpRequest}
    {qs : List WireRequest} (h : List.Forall₂ (OnWire x) rs qs) (hrs : ∀ r ∈ rs, Deliverable server r) :
    List.Forall₂ (Arrived x) rs (qs.map (WireRequest.alone x server 0 0)) := by
  induction h with
  | nil => exact .nil
  | cons hq _ ih =>
    exact .cons (hq.arrived hdecimal hserver (hrs _ List.mem_cons_self)) (ih fun r hr => hrs r (List.mem_cons_of_mem _ hr))

/-- What holds of an arrived request holds of the one that was sent. -/
theorem RoutedTo.sent {m r : HttpRequest} {d : Dispatch} (h : RoutedTo server m d) (hmethod : m.method = r.method)
    (hresource : m.resource = r.resource) : RoutedTo server r d := by
  cases h with
  | rootOptions hm hp => exact .rootOptions (hmethod ▸ hm) (hresource ▸ hp)
  | handler i k h hi ha hk hl => exact .handler i k h (hmethod ▸ hi) (hresource ▸ ha) hk (hresource ▸ hl)
  | notFound i hi hn => exact .notFound i (hmethod ▸ hi) (hresource ▸ hn)

theorem Arrived.notUpgrade {r : HttpRequest} {h : Handled} (ha : Arrived x r h) (hr : Sendable r) :
    isWebsocketUpgrade h.request = false := by
  have hconnection : h.request.headers.equalRange headerConnection = [str "Keep-Alive"] :=
    List.perm_singleton.mp (sentHeaders_connection hr.length ▸ equalRange_perm ha.headers headerConnection)
  have hnot : h.request.hasHeaderValue headerConnection (str "Upgrade") = false := by
    unfold HttpMessage.hasHeaderValue
    rw [hconnection]
    decide +kernel
  unfold isWebsocketUpgrade
  rw [hnot]
  simp

theorem forall₂_getLast? {α β : Type*} {R : α → β → Prop} {l : List α} {l' : List β} (h : List.Forall₂ R l l')
    {b : β} (hb : l'.getLast? = some b) : ∃ a, l.getLast? = some a ∧ R a b := by
  obtain ⟨front, rfl⟩ := List.getLast?_eq_some_iff.mp hb
  have hlast := List.forall₂_drop_append l front [b] h
  obtain ⟨a, _, hab, hnil, heq⟩ := List.forall₂_cons_right_iff.mp hlast
  obtain rfl := List.forall₂_nil_right_iff.mp hnil
  refine ⟨a, ?_, hab⟩
  rw [← List.take_append_drop front.length l, heq, List.getLast?_concat]

/-- **The server passes on what clients send, to whom it is for.** However the socket delivers the bytes,
the connection gets through, and when it has, all requests have arrived. On the way there, those that
have been passed on are the first ones, each as it was sent, and the one that waits for its answer is the
last of them, with the handler that is registered for the longest resource above its own. -/
theorem client_requests_served (hdecimal : ReadsDecimal x) (hserver : CalmServer server)
    (hlisten : server.listening = true) (rs : List HttpRequest) (hrs : ∀ r ∈ rs, Deliverable server r)
    (reads : List Bytes) (hreads : ∀ b ∈ reads, b ≠ [] ∧ b.length ≤ readBufferSize)
    (hstream : reads.flatten = (rs.map (clientText x)).flatten) :
    (∃ c, Served x server reads c ∧ c.phase = .reading) ∧
    (∀ c, Served x server reads c → c.phase = .reading → List.Forall₂ (Arrived x) rs c.handled) ∧
    (∀ front c, front <+: reads → Served x server front c →
      ∃ done, done <+: rs ∧ List.Forall₂ (Arrived x) done c.handled ∧
        (c.phase = .reading ∨ ∃ r d, done.getLast? = some r ∧ c.phase = .handling d ∧ RoutedTo server r d)) := by
  obtain ⟨qs, hqs⟩ := exists_allOnWire x rs fun r hr => (hrs r hr).sendable.serialisable
  have hpipelinable := allOnWire_pipelinable hdecimal hqs hrs
  rw [← allOnWire_stream hqs] at hstream
  refine ⟨exists_served hserver hlisten hpipelinable reads hreads ⟨[], by rw [List.append_nil, hstream]⟩, ?_, ?_⟩
  · intro c hc hphase
    obtain ⟨done, todo, rfl, hserving⟩ := hc.serving hserver hlisten hpipelinable ⟨[], by rw [List.append_nil, hstream]⟩
    obtain rfl := hserving.all_done hserver hphase (fun q hq => hpipelinable q (List.mem_append_right done hq))
      (hc.received.trans hstream)
    rw [List.append_nil] at hqs
    rw [hserving.handled]
    exact allOnWire_arrived hdecimal hserver hqs hrs
  · rintro front c ⟨later, rfl⟩ hc
    have hpre : front.flatten <+: streamOf qs := by
      rw [← hstream, List.flatten_append]
      exact List.prefix_append _ _
    obtain ⟨done, todo, rfl, hserving⟩ := hc.serving hserver hlisten hpipelinable hpre
    have hdone : ∀ r ∈ rs.take done.length, Deliverable server r := fun r hr => hrs r (List.mem_of_mem_take hr)
    have harrived : List.Forall₂ (Arrived x) (rs.take done.length) c.handled := by
      rw [hserving.handled]
      exact allOnWire_arrived hdecimal hserver (List.forall₂_take_append rs done todo hqs) hdone
    refine ⟨rs.take done.length, List.take_prefix _ _, harrived, ?_⟩
    by_cases hphase : c.phase = .reading
    · exact .inl hphase
    · obtain ⟨⟨d, hd⟩, hkeep, _⟩ := hserving.handling hphase
      obtain ⟨h, conn, ec, hlast, hanswer⟩ := hc.answersLast d hd
      obtain ⟨r, hr, ha⟩ := forall₂_getLast? harrived hlast
      have hmem : r ∈ rs.take done.length := List.mem_of_getLast? hr
      have hrouted := handleRequest_routed hanswer hkeep (ha.notUpgrade (hdone r hmem).sendable)
      exact .inr ⟨r, d, hr, hd, hrouted.sent ha.method ha.resource⟩

def askingRequest : HttpRequest where
  method := requestMethodGet
  resource := str "/a"
  headers := [(str "Host", str "localhost")]

/-- An upload of three bytes. -/
def uploadingRequest : HttpRequest where
  method := requestMethodPost
  resource := str "/u/v"
  contentLength := 3
  contentBuf := str "xyz"

theorem askingRequest_deliverable : Deliverable uploadServer askingRequest where
  sendable := ⟨by decide +kernel, rfl, by decide +kernel, rfl⟩
  version := ⟨rfl, rfl⟩
  method := by decide +kernel
  content := .inl rfl

theorem uploadingRequest_deliverable : Deliverable uploadServer uploadingRequest where
  sendable := ⟨by decide +kernel, rfl, by decide +kernel, rfl⟩
  version := ⟨rfl, rfl⟩
  method := by decide +kernel
  content := .inr ⟨_, rfl⟩

/-- They arrive in two pieces, the first with some of the second request. -/
def clientReads : List Bytes :=
  let stream := ([askingRequest, uploadingRequest].map (clientText plainExternals)).flatten
  [stream.take 89, stream.drop 89]

theorem client_requests_served_two :
    clientReads = [
        str "GET /a HTTP/1.1\r\nHost: localhost\r\nConnection: Keep-Alive\r\nContent-Length: 0\r\n\r\nPOST /u/v ",
        str "HTTP/1.1\r\nConnection: Keep-Alive\r\nContent-Length: 3\r\n\r\nxyz"] ∧
      ∃ c, Served plainExternals uploadServer clientReads c ∧
        List.Forall₂ (Arrived plainExternals) [askingRequest, uploadingRequest] c.handled := by
  have hdecimal : ReadsDecimal plainExternals := fun n h => parseDecimal_toString h
  have hstream : clientReads.flatten =
      ([askingRequest, uploadingRequest].map (clientText plainExternals)).flatten := by
    unfold clientReads
    rw [List.flatten_cons, List.flatten_cons, List.flatten_nil, List.append_nil, List.take_append_drop]
  obtain ⟨⟨c, hc, hphase⟩, hall, _⟩ := client_requests_served hdecimal uploadServer_calm rfl
    [askingRequest, uploadingRequest] (List.forall_mem_cons.mpr ⟨askingRequest_deliverable,
      List.forall_mem_singleton.mpr uploadingRequest_deliverable⟩) clientReads (by decide +kernel) hstream
  exact ⟨by decide +kernel, c, hc, hall c hc hphase⟩

end Pion.Proof
