import Pion.Lib.Delivery
import Pion.Proof.Dispatch

/-!
# Pipelined requests

A connection reads wherever the socket lets it: a read may end inside a request, or hold
the end of one, several whole ones, and the beginning of another. Each request has a
reader of its own, and all that is passed from one to the next is the lifecycle of the
connection and a bookmark into its read buffer.

`Serving` is the invariant that makes this work: what has been received so far is the
text of the requests handled so far, and behind it either what the reader at work has
been fed, or what the last one left unread.
-/

namespace Pion.Proof

open Pion Lib

variable {x : Externals} {server : HttpServer}

/-! ## Requests on the wire -/

structure WireRequest where
  head : Bytes
  state : HeaderState
  body : Body

namespace WireRequest

def text (q : WireRequest) : Bytes := q.head ++ q.body.text

/-- The request as its head describes it. -/
def request (x : Externals) (q : WireRequest) : HttpRequest := headRequest x q.state

/-- What a new reader makes of the request when it is alone. -/
def alone (x : Externals) (server : HttpServer) (i j : Nat) (q : WireRequest) : Handled :=
  let r := parse x server.handleRequestAfterHeadersParsed (HttpRequestReader.new i j).parser
    HttpRequest.fresh none q.text
  { request := r.msg, payload := r.parser.delivered }

end WireRequest

def supportedMethods : List Bytes :=
  [requestMethodGet, requestMethodHead, requestMethodPost, requestMethodPut, requestMethodDelete,
    requestMethodOptions]

/-- A request that the connection is kept open for, with no body or one that is streamed. -/
structure Pipelinable (x : Externals) (server : HttpServer) (q : WireRequest) : Prop where
  accepts : Accepts x q.head q.state
  fits : q.body.Fits x q.state
  version : (q.request x).versionMajor = 1 ∧ (q.request x).versionMinor = 1
  notClose : (q.request x).getHeader headerConnection ≠ str "close"
  method : (q.request x).method ∈ supportedMethods
  notUpgrade : isWebsocketUpgrade (q.request x) = false
  body : q.body.text = [] ∨ (q.body.trailers = [] ∧ HasPayload server (q.request x))

theorem chooseMapByMethod_supported {α : Type} {method : Bytes} (h : method ∈ supportedMethods)
    (maps : MethodMaps α) : ∃ map, chooseMapByMethod method maps = .ok map := by
  unfold supportedMethods at h
  simp only [List.mem_cons, List.not_mem_nil, or_false] at h
  rcases h with rfl | rfl | rfl | rfl | rfl | rfl
  · exact ⟨_, rfl⟩
  · exact ⟨_, rfl⟩
  · exact ⟨_, rfl⟩
  · exact ⟨_, rfl⟩
  · exact ⟨_, rfl⟩
  · exact ⟨_, rfl⟩

theorem Pipelinable.found {q : WireRequest} (h : Pipelinable x server q) :
    ∃ found, server.findPayload (q.request x) = .ok found ∧ remains found q.body = [] := by
  obtain ⟨map, hmap⟩ := chooseMapByMethod_supported h.method server.payloads
  have hfound : server.findPayload (q.request x) =
      .ok (findSubmatch map (stripTrailingSlash (q.request x).resource)) := by
    unfold HttpServer.findPayload
    rw [hmap]
  refine ⟨_, hfound, ?_⟩
  rcases h.body with hb | ⟨htr, hhas⟩
  · have hs := remains_suffix (findSubmatch map (stripTrailingSlash (q.request x).resource)) q.body
    rw [hb] at hs
    exact List.suffix_nil.mp hs
  · unfold remains
    rw [if_pos ((hasPayload_iff hfound).mp hhas), Body.leftover_nil htr]

/-! ## One request, dispatched -/

/-- The fields that decide where a request goes, and what becomes of its connection. -/
def routing (m : HttpRequest) : Dict × UInt16 × UInt16 × Bytes × Bytes :=
  (m.headers, m.versionMajor, m.versionMinor, m.method, m.resource)

theorem finished_routing (k : Option PayloadHandler) (f : Framing) (m : HttpRequest) :
    routing (finished x k (f.request 1 m)) = routing m ∧
      (finished x k (f.request 1 m)).isValid = true := by
  have hrequest : routing (f.request 1 m) = routing m := by
    rcases f with _ | n | _
    · rfl
    · cases n <;> rfl
    · rfl
  unfold finished
  split
  · rw [parsePostContent_frame]
    exact ⟨hrequest, rfl⟩
  · exact ⟨hrequest, rfl⟩

/-- The server answers this request, and its connection is kept open. -/
structure Answered (server : HttpServer) (m : HttpRequest) : Prop where
  keepAlive : m.checkKeepAlive = true
  dispatch : ∀ conn, ∃ d, server.handleRequest conn .ok m = (conn, .ok d)

theorem Pipelinable.answered {q : WireRequest} (h : Pipelinable x server q) {m : HttpRequest}
    (hm : routing m = routing (q.request x)) (hvalid : m.isValid = true) : Answered server m := by
  unfold routing at hm
  simp only [Prod.mk.injEq] at hm
  obtain ⟨hheaders, hmajor, hminor, hmethod, hresource⟩ := hm
  have hget : ∀ key, m.getHeader key = (q.request x).getHeader key := by
    intro key
    unfold HttpMessage.getHeader
    rw [hheaders]
  have hup : isWebsocketUpgrade m = false := by
    rw [← h.notUpgrade]
    unfold isWebsocketUpgrade HttpMessage.hasHeaderValue
    rw [hget, hget, hheaders]
  refine ⟨?_, fun conn => ?_⟩
  · unfold HttpMessage.checkKeepAlive
    rw [hget, hmajor, hminor, h.version.1, h.version.2]
    simp only [ne_eq, h.notClose, not_false_eq_true, decide_true, Bool.true_and]
    decide
  · obtain ⟨map, hmap⟩ := chooseMapByMethod_supported h.method server.handlers
    unfold HttpServer.handleRequest
    rw [if_neg (by simp [hvalid]), hup, if_neg Bool.false_ne_true, hmethod, hmap]
    dsimp only
    split
    · exact ⟨_, rfl⟩
    · split
      · exact ⟨_, rfl⟩
      · exact ⟨_, rfl⟩

/-- **What a reader makes of a request does not depend on what stands behind it**, nor on the
counters that its constructor leaves alone. -/
theorem Pipelinable.parse_alone (hserver : CalmServer server) {q : WireRequest}
    (h : Pipelinable x server q) (i j i' j' : Nat) (rest : Bytes) :
    let r := parse x server.handleRequestAfterHeadersParsed (HttpRequestReader.new i j).parser
      HttpRequest.fresh none (q.text ++ rest)
    r.rc = .ok .true ∧ r.ec = none ∧ r.unread = rest ∧ Answered server r.msg ∧
      { request := r.msg, payload := r.parser.delivered : Handled } = q.alone x server i' j' := by
  obtain ⟨found, hfound, hremains⟩ := h.found
  obtain ⟨hrc, hec, hunread, hdata, hmsg⟩ := parse_server hserver i j h.accepts h.fits hfound rest
  obtain ⟨_, _, _, hdata', hmsg'⟩ := parse_server hserver i' j' h.accepts h.fits hfound []
  obtain ⟨hroute, hvalid⟩ := finished_routing (x := x)
    (found.map (· (q.body.framing.request 1 (q.request x)))) q.body.framing (q.request x)
  rw [hremains, List.nil_append] at hunread
  rw [List.append_nil] at hdata' hmsg'
  have htext : q.text ++ rest = q.head ++ (q.body.text ++ rest) := List.append_assoc _ _ _
  rw [htext]
  refine ⟨hrc, hec, hunread, ?_, ?_⟩
  · rw [hmsg]
    exact h.answered hroute hvalid
  · unfold WireRequest.alone WireRequest.text
    dsimp only
    rw [hmsg, hdata, hmsg', hdata']

/-- A reader that is done with buffers in front of which a request stands has that request. -/
theorem Pipelinable.fed_next (hserver : CalmServer server) {q : WireRequest}
    (h : Pipelinable x server q) {i j : Nat} {bufs : List Bytes} (hbufs : ∀ b ∈ bufs, b ≠ [])
    (hrc : (fed x server i j bufs).rc ≠ .ok .indeterminate) {later rest : Bytes}
    (hstream : bufs.flatten ++ later = q.text ++ rest) :
    let r := fed x server i j bufs
    r.rc = .ok .true ∧ r.ec = none ∧ bufs.flatten = q.text ++ r.unread ∧ Answered server r.msg ∧
      { request := r.msg, payload := r.parser.delivered : Handled } = q.alone x server 0 0 := by
  have hsame := fed_extend hserver hbufs hrc later
  rw [hstream] at hsame
  obtain ⟨htrue, hec, hunread, hanswer, halone⟩ := h.parse_alone hserver i j 0 0 rest
  have hmsg : (fed x server i j bufs).msg = _ := hsame.msg
  have hpay : (fed x server i j bufs).parser.delivered = _ := hsame.delivered
  have hrest : (fed x server i j bufs).unread ++ later = rest := hsame.unread.trans hunread
  refine ⟨hsame.rc.trans htrue, hsame.ec.trans hec, ?_, hmsg ▸ hanswer, ?_⟩
  · refine (List.append_left_inj later).mp ?_
    rw [hstream, List.append_assoc, hrest]
  · rw [← halone, hmsg, hpay]

theorem afterParse_answered {c : Session} {r : ParseResult} (hrc : r.rc = .ok .true)
    (hec : r.ec = none) (h : Answered server r.msg) :
    ∃ d, (c.afterParse server r).phase = .handling d ∧
      (c.afterParse server r).conn.getKeepAlive = true ∧
      (c.afterParse server r).received = c.received := by
  unfold Session.afterParse
  rw [hrc, hec]
  unfold Session.finishedReading
  dsimp only [ReadError.ofParser]
  obtain ⟨d, hd⟩ := h.dispatch (Session.keepPosition c.conn
    { parser := r.parser, request := r.msg, readPtr := c.reader.readEndPtr - r.unread.length,
      readEndPtr := c.reader.readEndPtr })
  rw [hd]
  refine ⟨d, rfl, ?_, rfl⟩
  unfold Session.keepPosition
  dsimp only
  rw [h.keepAlive, if_pos rfl]
  split
  · rfl
  · rfl

/-! ## The invariant -/

def streamOf (qs : List WireRequest) : Bytes := (qs.map WireRequest.text).flatten

theorem streamOf_append (qs rs : List WireRequest) : streamOf (qs ++ rs) = streamOf qs ++ streamOf rs := by
  unfold streamOf
  rw [List.map_append, List.flatten_append]

theorem streamOf_cons (q : WireRequest) (qs : List WireRequest) :
    streamOf (q :: qs) = q.text ++ streamOf qs := rfl

/-- What the connection has made of the bytes it was given: `done` are the requests
it has handled. -/
structure Serving (x : Externals) (server : HttpServer) (done : List WireRequest) (c : Session) :
    Prop where
  handled : c.handled = done.map (WireRequest.alone x server 0 0)
  /-- A reader at work has used up the read buffer, and every byte behind the handled requests
  has been fed to it. -/
  reading : c.phase = .reading → c.unread = [] ∧ ∃ i j bufs, FedBy x server c.reader i j bufs ∧
    (∀ b ∈ bufs, b ≠ []) ∧ c.received = streamOf done ++ bufs.flatten
  /-- A connection that is not being read is kept alive, and the last reader has left every byte
  behind the handled requests. -/
  handling : c.phase ≠ .reading → (∃ d, c.phase = .handling d) ∧ c.conn.getKeepAlive = true ∧
    c.received = streamOf done ++ c.unread

theorem serving_waits {done : List WireRequest} {c : Session} {i j : Nat} {bufs : List Bytes}
    (hh : c.handled = done.map (WireRequest.alone x server 0 0)) (hphase : c.phase = .reading)
    (hunread : c.unread = []) (hfed : FedBy x server c.reader i j bufs)
    (hbufs : ∀ b ∈ bufs, b ≠ []) (hrec : c.received = streamOf done ++ bufs.flatten) :
    Serving x server done c :=
  ⟨hh, fun _ => ⟨hunread, i, j, bufs, hfed, hbufs, hrec⟩, fun hne => absurd hphase hne⟩

/-- **A parse keeps the invariant.** -/
theorem serving_consumeBytes (hserver : CalmServer server) {done todo : List WireRequest}
    (htodo : ∀ q ∈ todo, Pipelinable x server q) {c : Session} {i j : Nat} {front : List Bytes}
    (hload : Loaded x server i j c front) (hfront : ∀ b ∈ front, b ≠ [])
    (hh : c.handled = done.map (WireRequest.alone x server 0 0))
    (hrec : c.received = streamOf done ++ (front ++ [c.unread]).flatten)
    (hstream : c.received <+: streamOf (done ++ todo)) :
    Advanced (Serving x server) (·.phase = .reading) done todo (c.consumeBytes x server) := by
  have hbufs : ∀ b ∈ front ++ [c.unread], b ≠ [] :=
    List.forall_mem_append.mpr ⟨hfront, List.forall_mem_singleton.mpr hload.ne⟩
  rw [consumeBytes_fed hload.fedBy]
  by_cases hrc : (fed x server i j (front ++ [c.unread])).rc = .ok .indeterminate
  · -- the request goes on beyond the buffer
    left
    have hempty : (fed x server i j (front ++ [c.unread])).unread = [] := by
      rw [← hload.fedBy.parse_eq] at hrc ⊢
      exact parse_waits_empty hrc
    have hphase := (afterParse_reading server c _).mpr hrc
    refine ⟨serving_waits ?_ hphase ?_ (fedBy_afterParse hrc) hbufs ?_, hphase⟩
    · rw [afterParse_waits hrc]
      exact hh
    · rw [afterParse_waits hrc, hempty]
      exact List.drop_eq_nil_of_le (List.length_take_le _ _)
    · rw [afterParse_waits hrc]
      exact hrec
  · right
    obtain ⟨later, hlater⟩ := hstream
    rw [hrec, streamOf_append, List.append_assoc] at hlater
    replace hlater := List.append_cancel_left hlater
    have hne : (front ++ [c.unread]).flatten ≠ [] := by
      rw [List.flatten_append, List.flatten_singleton]
      exact fun he => hload.ne (List.append_eq_nil_iff.mp he).2
    cases todo with
    | nil => exact absurd (List.append_eq_nil_iff.mp hlater).1 hne
    | cons q todo' =>
      refine ⟨q, todo', rfl, ?_⟩
      obtain ⟨htrue, hec, hflat, hanswer, halone⟩ :=
        (htodo q List.mem_cons_self).fed_next hserver hbufs hrc (hlater.trans (streamOf_cons q todo'))
      obtain ⟨hhandled, hspan⟩ := afterParse_done server c htrue
      obtain ⟨d, hphase, hkeep, hreceived⟩ := afterParse_answered (c := c) htrue hec hanswer
      have hleft : (c.afterParse server (fed x server i j (front ++ [c.unread]))).unread =
          (fed x server i j (front ++ [c.unread])).unread := by
        rw [hspan]
        exact span_move_suffix hload.inBuffer
          (hload.fedBy.unread_suffix (hflat ▸ List.suffix_append _ _))
      refine ⟨?_, fun hr => ?_, fun _ => ⟨⟨d, hphase⟩, hkeep, ?_⟩⟩
      · rw [hhandled, hh, List.map_append, List.map_singleton, halone]
      · rw [hphase] at hr
        cases hr
      · rw [hreceived, hrec, hleft, hflat, streamOf_append, List.append_assoc]
        unfold streamOf
        simp only [List.map_cons, List.map_nil, List.flatten_cons, List.flatten_nil, List.append_nil]

/-! ## Runs -/

/-- A connection that is never cut off, and the reads that have completed on it so far. A
request that has been dispatched is answered, after which `finish()` is called. -/
inductive Served (x : Externals) (server : HttpServer) : List Bytes → Session → Prop where
  | accepted (i j : Nat) : Served x server [] (.accepted x server i j)
  | read {reads : List Bytes} {c : Session} (h : Served x server reads c) (data : Bytes)
      (hphase : c.phase = .reading) (hne : data ≠ []) (hle : data.length ≤ readBufferSize) :
      Served x server (reads ++ [data]) (c.readCompletes x server data)
  | finish {reads : List Bytes} {c : Session} (h : Served x server reads c) (d : Dispatch) (i j : Nat)
      (hphase : c.phase = .handling d) : Served x server reads (c.finishConnection x server i j)

theorem Served.reachable {reads : List Bytes} {c : Session} (h : Served x server reads c) :
    Reachable x server c := by
  induction h with
  | accepted i j => exact .accepted i j
  | read h data hphase hne hle ih => exact .tail ih (.read _ data hphase hne hle)
  | finish h d i j hphase ih => exact .tail ih (.finish _ d i j hphase)

theorem consumeBytes_received (c : Session) : (c.consumeBytes x server).received = c.received := by
  unfold Session.consumeBytes Session.afterParse
  dsimp only
  split <;> rfl

theorem Served.received {reads : List Bytes} {c : Session} (h : Served x server reads c) :
    c.received = reads.flatten := by
  induction h with
  | accepted i j => rfl
  | @read reads c h data hphase hne hle ih =>
    rw [List.flatten_append, List.flatten_singleton, ← ih]
    exact consumeBytes_received (arrived c data)
  | @finish reads c h d i j hphase ih =>
    unfold Session.finishConnection
    split
    · unfold Session.handleConnection Session.receive
      split
      · rw [consumeBytes_received]
        exact ih
      · exact ih
    · exact ih

/-- **A read keeps the invariant.** -/
theorem serving_read (hserver : CalmServer server) {done todo : List WireRequest}
    (htodo : ∀ q ∈ todo, Pipelinable x server q) {c : Session} (h : Serving x server done c)
    (hphase : c.phase = .reading) {data : Bytes} (hne : data ≠ [])
    (hstream : c.received ++ data <+: streamOf (done ++ todo)) :
    Advanced (Serving x server) (·.phase = .reading) done todo (c.readCompletes x server data) := by
  obtain ⟨_, i, j, bufs, hfed, hbufs, hrec⟩ := h.reading hphase
  refine serving_consumeBytes (c := arrived c data) hserver htodo (hfed.loaded hne) hbufs h.handled ?_
    hstream
  rw [arrived_unread, List.flatten_append, List.flatten_singleton, ← List.append_assoc, ← hrec]
  rfl

/-- **The next reader keeps the invariant**: it starts at the byte behind the last request,
in the read buffer or at the socket. -/
theorem serving_finish (hserver : CalmServer server) (hlisten : server.listening = true)
    {done todo : List WireRequest} (htodo : ∀ q ∈ todo, Pipelinable x server q) {c : Session}
    (h : Serving x server done c) (hsettled : Settled c) (hphase : c.phase ≠ .reading)
    (hstream : c.received <+: streamOf (done ++ todo)) (i j : Nat) :
    Advanced (Serving x server) (·.phase = .reading) done todo (c.finishConnection x server i j) := by
  obtain ⟨_, hkeep, hrec⟩ := h.handling hphase
  unfold Session.finishConnection
  rw [if_pos ⟨hlisten, hkeep⟩]
  cases hl : c.conn.currentLifecycle with
  | close =>
    unfold TcpConnection.getKeepAlive at hkeep
    rw [hl] at hkeep
    cases hkeep
  | keepalive =>
    -- the next read overwrites the buffer, which has been read to its end
    have hunread : c.unread = [] := by
      unfold Session.unread TcpConnection.span
      refine List.drop_eq_nil_of_le ?_
      exact Nat.le_trans (List.length_take_le _ _) (hsettled.keepalive hl)
    unfold Session.handleConnection Session.receive
    rw [if_neg (by unfold TcpConnection.isPipelined; rw [hl]; decide)]
    refine Or.inl ⟨?_, rfl⟩
    refine serving_waits h.handled rfl rfl (fedBy_new server i j) (fun b hb => by cases hb) ?_
    show c.received = streamOf done ++ []
    rw [hrec, hunread]
  | pipelined =>
    -- the new reader starts at the bookmark, on bytes received before
    have hp : c.conn.isPipelined = true := decide_eq_true hl
    have hunread : (resumed c i j).unread = c.unread := (hsettled.bookmarked_eq hp).1
    rw [handleConnection_resumed hp]
    refine serving_consumeBytes hserver htodo (hsettled.loaded hp i j) (fun b hb => by cases hb) h.handled
      ?_ hstream
    rw [List.nil_append, List.flatten_singleton, hunread]
    exact hrec

section runs

variable {rs : List WireRequest}

/-- **Every run keeps the invariant.** -/
theorem Served.serving (hserver : CalmServer server) (hlisten : server.listening = true)
    (hrs : ∀ q ∈ rs, Pipelinable x server q) {reads : List Bytes} {c : Session}
    (h : Served x server reads c) (hstream : reads.flatten <+: streamOf rs) :
    Along (Serving x server) rs c := by
  induction h with
  | accepted i j =>
    refine ⟨[], rs, rfl, ?_⟩
    exact serving_waits rfl rfl rfl (fedBy_new server i j) (fun b hb => by cases hb) rfl
  | @read reads c h data hphase hne hle ih =>
    rw [List.flatten_append, List.flatten_singleton] at hstream
    obtain ⟨done, todo, rfl, hserving⟩ := ih ((List.prefix_append _ _).trans hstream)
    rw [← h.received] at hstream
    exact (serving_read hserver (fun q hq => hrs q (List.mem_append_right done hq)) hserving hphase hne
      hstream).along
  | @finish reads c h d i j hphase ih =>
    obtain ⟨done, todo, rfl, hserving⟩ := ih hstream
    rw [← h.received] at hstream
    exact (serving_finish hserver hlisten (fun q hq => hrs q (List.mem_append_right done hq)) hserving
      (settled_reachable h.reachable) (by rw [hphase]; exact fun he => by cases he) hstream i j).along

/-- Answering requests brings the connection back to reading. -/
theorem Served.drain (hserver : CalmServer server) (hlisten : server.listening = true)
    (hrs : ∀ q ∈ rs, Pipelinable x server q) {reads : List Bytes} {c : Session}
    (h : Served x server reads c) (hstream : reads.flatten <+: streamOf rs) :
    ∃ c', Served x server reads c' ∧ c'.phase = .reading := by
  refine Lib.drain ?_ h (h.serving hserver hlisten hrs hstream)
  intro done todo c hsplit hc hserving hphase
  subst hsplit
  obtain ⟨⟨d, hd⟩, _, _⟩ := hserving.handling hphase
  refine ⟨_, hc.finish d 0 0 hd, ?_⟩
  exact serving_finish hserver hlisten (fun q hq => hrs q (List.mem_append_right done hq)) hserving
    (settled_reachable hc.reachable) hphase (by rw [hc.received]; exact hstream) 0 0

/-- The connection gets through any reads of the stream. -/
theorem exists_served (hserver : CalmServer server) (hlisten : server.listening = true)
    (hrs : ∀ q ∈ rs, Pipelinable x server q) (reads : List Bytes)
    (hreads : ∀ b ∈ reads, b ≠ [] ∧ b.length ≤ readBufferSize)
    (hstream : reads.flatten <+: streamOf rs) :
    ∃ c, Served x server reads c ∧ c.phase = .reading := by
  refine Lib.exists_run ?_ ?_ reads hreads hstream
  · exact ⟨_, Served.accepted 0 0, rfl⟩
  · intro reads data c hc hphase hdata hstream
    exact (hc.read data hphase hdata.1 hdata.2).drain hserver hlisten hrs hstream

theorem Accepts.ne {head : Bytes} {s : HeaderState} (h : Accepts x head s) : head ≠ [] := by
  rintro rfl
  cases h

/-- A reader that waits has not been fed a whole request. -/
theorem Serving.all_done (hserver : CalmServer server) {done todo : List WireRequest} {c : Session}
    (h : Serving x server done c) (hphase : c.phase = .reading)
    (htodo : ∀ q ∈ todo, Pipelinable x server q) (hrec : c.received = streamOf (done ++ todo)) :
    todo = [] := by
  obtain ⟨_, i, j, bufs, hfed, hbufs, hrec'⟩ := h.reading hphase
  rw [hrec, streamOf_append] at hrec'
  have hflat : bufs.flatten = streamOf todo := (List.append_cancel_left hrec').symm
  cases todo with
  | nil => rfl
  | cons q todo' =>
    have hq := htodo q List.mem_cons_self
    have hne : bufs.flatten ≠ [] := by
      rw [hflat, streamOf_cons]
      intro he
      exact hq.accepts.ne (List.append_eq_nil_iff.mp (List.append_eq_nil_iff.mp he).1).1
    have hsame : SameResult (fed x server i j bufs) _ :=
      feed_idle (server_calmHook hserver) (fresh_calm 1 i j) hbufs hne
    have htrue := (hq.parse_alone hserver i j 0 0 (streamOf todo')).1
    rw [← streamOf_cons, ← hflat] at htrue
    have hwait := hsame.rc.symm.trans hfed.waits
    exact absurd (htrue.symm.trans hwait) (fun he => by cases he)

theorem alone_eq (hserver : CalmServer server) {done : List WireRequest}
    (h : ∀ q ∈ done, Pipelinable x server q) (i j : Nat) :
    done.map (WireRequest.alone x server 0 0) = done.map (WireRequest.alone x server i j) := by
  refine List.map_congr_left fun q hq => ?_
  exact (((h q hq).parse_alone hserver 0 0 0 0 []).2.2.2.2).symm.trans
    ((h q hq).parse_alone hserver 0 0 i j []).2.2.2.2

/-- **Pipelined requests are handled in order, each once.** However the socket delivers the
requests, the connection gets through, and when it has, the requests passed to
`handle_request` are exactly these, each as a new parser makes it of the request alone.
On the way there, the requests handled are the first ones, the last reader has left what was
received behind them, and the read buffer holds no unread byte when it is read into. -/
theorem pipelined_in_order (hserver : CalmServer server) (hlisten : server.listening = true)
    (rs : List WireRequest) (hrs : ∀ q ∈ rs, Pipelinable x server q) (reads : List Bytes)
    (hreads : ∀ b ∈ reads, b ≠ [] ∧ b.length ≤ readBufferSize)
    (hstream : reads.flatten = streamOf rs) :
    (∃ c, Served x server reads c ∧ c.phase = .reading) ∧
    (∀ c, Served x server reads c → c.phase = .reading → ∀ i j,
      c.handled = rs.map (WireRequest.alone x server i j)) ∧
    (∀ front c, front <+: reads → Served x server front c →
      ∃ done, done <+: rs ∧ (∀ i j, c.handled = done.map (WireRequest.alone x server i j)) ∧
        ((c.phase = .reading ∧ c.unread = []) ∨
          ∃ d, c.phase = .handling d ∧ c.conn.getKeepAlive = true ∧
            front.flatten = streamOf done ++ c.unread)) := by
  refine ⟨exists_served hserver hlisten hrs reads hreads ⟨[], by rw [List.append_nil, hstream]⟩, ?_, ?_⟩
  · intro c hc hphase i j
    obtain ⟨done, todo, rfl, hserving⟩ := hc.serving hserver hlisten hrs ⟨[], by rw [List.append_nil, hstream]⟩
    obtain rfl := hserving.all_done hserver hphase (fun q hq => hrs q (List.mem_append_right done hq))
      (hc.received.trans hstream)
    rw [List.append_nil] at hrs ⊢
    exact hserving.handled.trans (alone_eq hserver hrs i j)
  · intro front c hfront hc
    have hpre : front.flatten <+: streamOf rs := by
      obtain ⟨tl, rfl⟩ := hfront
      rw [← hstream, List.flatten_append]
      exact List.prefix_append _ _
    obtain ⟨done, todo, rfl, hserving⟩ := hc.serving hserver hlisten hrs hpre
    refine ⟨done, List.prefix_append _ _, fun i j => ?_, ?_⟩
    · exact hserving.handled.trans
        (alone_eq hserver (fun q hq => hrs q (List.mem_append_left todo hq)) i j)
    · by_cases hphase : c.phase = .reading
      · exact Or.inl ⟨hphase, (hserving.reading hphase).1⟩
      · obtain ⟨⟨d, hd⟩, hkeep, hrec⟩ := hserving.handling hphase
        exact Or.inr ⟨d, hd, hkeep, hc.received.symm.trans hrec⟩

end runs

/-- A request without a body. -/
def getRequest : WireRequest where
  head := str "GET /a HTTP/1.1\r\nHost: h\r\n\r\n"
  state := ({ headersParseState := .expectingFinalNewline, method := str "GET", resource := str "/a",
              headerName := str "Host", headerValue := str "h" },
            { headers := [(str "Host", str "h")] })
  body := .none

def uploadRequest : WireRequest where
  head := chunkedHead
  state := chunkedHeadState
  body := .chunked plainBody

theorem getRequest_pipelinable : Pipelinable plainExternals uploadServer getRequest where
  accepts := by unfold Accepts; decide +kernel
  fits := ⟨by decide +kernel, trivial⟩
  version := by decide +kernel
  notClose := by decide +kernel
  method := by decide +kernel
  notUpgrade := by decide +kernel
  body := Or.inl rfl

theorem uploadRequest_pipelinable : Pipelinable plainExternals uploadServer uploadRequest where
  accepts := chunkedHead_accepted
  fits := plainBody_fits
  version := by decide +kernel
  notClose := by decide +kernel
  method := by decide +kernel
  notUpgrade := by decide +kernel
  body := Or.inr ⟨rfl, _, rfl⟩

/-- Two requests in three reads, none of which ends between them. -/
def threeReads : List Bytes :=
  [str "GET /a HTTP/1.1\r\nHost: h\r", str "\n\r\nPOST /u HTTP/1.1\r\nTransfer-Enc",
    str "oding: chunked\r\n\r\n03;q\r\n\r\n0\r\n0\r\n\r\n"]

theorem pipelined_in_order_two :
    ∃ c, Served plainExternals uploadServer threeReads c ∧
      c.handled = [getRequest, uploadRequest].map (WireRequest.alone plainExternals uploadServer 0 0) := by
  obtain ⟨⟨c, hc, hphase⟩, hall, _⟩ := pipelined_in_order uploadServer_calm rfl
    [getRequest, uploadRequest] (by
      intro q hq
      rcases List.mem_cons.mp hq with rfl | hq
      · exact getRequest_pipelinable
      · rw [List.mem_singleton.mp hq]
        exact uploadRequest_pipelinable) threeReads (by decide +kernel) (by decide +kernel)
  exact ⟨c, hc, hall c hc hphase 0 0⟩

end Pion.Proof
