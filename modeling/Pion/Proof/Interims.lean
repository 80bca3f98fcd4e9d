import Pion.Proof.AnswerOrder
import Pion.Proof.Clean

/-!
# Interim responses

A client that asks for it with `Expect: 100-continue` is told to go on as soon as the headers of its
request have been read. Over all requests of a connection, in any segmentation, nobody is told so twice,
and nobody who has not asked.
-/

namespace Pion.Proof

open Pion Lib

variable {x : Externals} {hook : Hook} {server : HttpServer}

/-! ## The parser removes no header -/

/-- The headers of the one message are headers of the other. -/
def HeadersStay (m m' : HttpRequest) : Prop := m.headers ⊆ m'.headers

theorem HeadersStay.trans {m₁ m₂ m₃ : HttpRequest} (h : HeadersStay m₁ m₂) (h' : HeadersStay m₂ m₃) :
    HeadersStay m₁ m₃ :=
  List.Subset.trans h h'

theorem headersStay_of_eq {m m' : HttpRequest} (h : m'.headers = m.headers) : HeadersStay m m' := by
  unfold HeadersStay
  rw [h]
  exact List.Subset.refl _

/-- What a step leaves has the headers of the message before. -/
def StayingAction (m : HttpRequest) : HeaderAction → Prop
  | .take s' => HeadersStay m s'.2
  | .stop _ s' _ => HeadersStay m s'.2

section step

variable {s : HeaderState}

theorem stayingAction_error (e : ErrorValue) : StayingAction s.2 (headerError s e) := headersStay_of_eq rfl

theorem headersStay_addHeader : HeadersStay s.2 (addHeader x s).2 :=
  fun _ he => (x.insert_perm s.2.headers _).mem_iff.mpr (List.mem_cons_of_mem _ he)

theorem headerSwitch_stays (c : UInt8) : StayingAction s.2 (headerSwitch x s c) := by
  unfold headerSwitch
  dsimp only
  cases s.1.headersParseState <;> dsimp only
  all_goals
    repeat' apply of_ite
    all_goals
      first
      | exact stayingAction_error _
      | exact headersStay_addHeader
      | exact headersStay_of_eq rfl

end step

theorem headerScanner_stays (s : HeaderState) (buf : Bytes) :
    (∀ s', (headerScanner x).run s buf = .more s' → HeadersStay s.2 s'.2) ∧
      ∀ r s' rest, (headerScanner x).run s buf = .stop r s' rest → HeadersStay s.2 s'.2 := by
  have hstep : ∀ t c, StayingAction t.2 (headerStep x t c) := fun t c =>
    headerSwitch_stays (s := (t.1.recordRaw [c], t.2)) c
  have hnext : ∀ t c cs t' rest, HeadersStay s.2 t.2 → (headerScanner x).step t c cs = .next t' rest →
      HeadersStay s.2 t'.2 := by
    intro t c cs t' rest ht hst
    have hstays := hstep t c
    rw [headerScanner_next hst] at hstays
    exact ht.trans hstays
  have hstop : ∀ t c cs r t' rest, HeadersStay s.2 t.2 → (headerScanner x).step t c cs = .stop r t' rest →
      HeadersStay s.2 t'.2 := by
    intro t c cs r t' rest ht hst
    obtain ⟨u, hu, _⟩ := headerScanner_stop hst
    have hstays := hstep t c
    rw [hu] at hstays
    exact ht.trans hstays
  have hself : HeadersStay s.2 s.2 := headersStay_of_eq rfl
  exact ⟨fun s' hrun => (headerScanner x).more_keeps hnext buf s s' hself hrun,
    fun r s' rest hrun => (headerScanner x).stop_keeps hnext hstop buf s r s' rest hself hrun⟩

theorem parseHeaders_stay (g : Progress) : HeadersStay g.msg (parseHeaders x g).1.msg := by
  obtain ⟨hmore, hstop⟩ := headerScanner_stays (x := x) (g.parser.toHeaderFields, g.msg) g.unread
  unfold parseHeaders
  dsimp only
  split
  · rename_i s hrun
    exact hmore s hrun
  · rename_i s rest hrun
    exact hstop none s rest hrun
  · rename_i e s rest hrun
    exact hstop (some e) s rest hrun

theorem beforeFraming_headers (p : HttpParser) (m : HttpRequest) :
    (beforeFraming x p m).2.headers = m.headers := by
  have htransfer : ∀ m : HttpMessage, m.updateTransferEncodingUsingHeader.headers = m.headers := by
    intro m
    unfold HttpMessage.updateTransferEncodingUsingHeader
    split
    · rfl
    · rfl
  have htexts := updateMessage_texts (x := x) p { m with toHttpMessage :=
    { m.toHttpMessage with contentLength := 0 }.updateTransferEncodingUsingHeader }
  unfold requestTexts at htexts
  simp only [Prod.mk.injEq] at htexts
  exact htexts.2.2.2.trans (htransfer _)

theorem decideFraming_headers {p p' : HttpParser} {m m' : HttpRequest} {rc : Tribool}
    (h : decideFraming x p m = some (p', m', rc)) : m'.headers = m.headers := by
  rw [(decideFraming_frame h).2]

theorem finishHeaderParsing_headers (g : Progress) :
    (finishHeaderParsing x hook g).1.msg.headers = g.msg.headers := by
  rw [finishHeaderParsing_eq]
  split
  · exact beforeFraming_headers _ _
  · rename_i p m rc hd
    have hm := (decideFraming_headers hd).trans (beforeFraming_headers _ _)
    split
    · exact hm
    · exact hm

theorem parseHeadersCase_stays (g : Progress) (t : Nat) :
    HeadersStay g.msg (parseHeadersCase x hook g t).1.msg := by
  have hread := parseHeaders_stay (x := x) g
  unfold parseHeadersCase
  dsimp only
  split
  · exact hread.trans (headersStay_of_eq (finishHeaderParsing_headers _))
  · exact hread

theorem parseChunksCase_headers (g : Progress) (t : Nat) :
    (parseChunksCase g t).1.msg.headers = g.msg.headers := by
  have hread : (parseChunks g).1.msg.headers = g.msg.headers := by
    unfold parseChunks
    dsimp only
    split <;> rfl
  unfold parseChunksCase
  dsimp only
  split
  · exact hread
  · split
    · exact hread
    · exact hread

theorem consumeContent_headers (g : Progress) : (consumeContent g).1.msg.headers = g.msg.headers := by
  unfold consumeContent
  dsimp only
  split
  · rfl
  · split
    · split
      · rfl
      · rfl
    · show (storeContent _ _ _).headers = _
      rw [storeContent_frame]

theorem consumeContentAsNextChunk_headers (g : Progress) :
    (consumeContentAsNextChunk g).1.msg.headers = g.msg.headers := by
  unfold consumeContentAsNextChunk
  dsimp only
  split
  · rfl
  · split
    · split
      · rfl
      · rfl
    · rfl

theorem parseSwitch_stays (g : Progress) (t : Nat) : HeadersStay g.msg (parseSwitch x hook g t).1.msg := by
  unfold parseSwitch
  cases g.parser.messageParseState <;> dsimp only
  case start => exact parseHeadersCase_stays { g with parser := { g.parser with messageParseState := .headers } } t
  case headers | footers => exact parseHeadersCase_stays g t
  case chunks => exact headersStay_of_eq (parseChunksCase_headers g t)
  case content =>
    split
    · exact headersStay_of_eq (consumeContent_headers g)
    · exact headersStay_of_eq (consumeContent_headers g)
  case contentNoLength =>
    split
    · exact headersStay_of_eq (consumeContentAsNextChunk_headers g)
    · exact headersStay_of_eq (consumeContentAsNextChunk_headers g)
  case «end» => exact headersStay_of_eq rfl

theorem parseLoop_stays (n : Nat) (g : Progress) (t : Nat) :
    HeadersStay g.msg (parseLoop x hook n g t).1.msg :=
  parseLoop_invariant (Q := fun g' _ _ => HeadersStay g.msg g'.msg)
    (fun g' t' h => h.trans (parseSwitch_stays g' t')) n g t (headersStay_of_eq rfl)

theorem parseEnd_headers (g : Progress) (t : Nat) (rc : Except Exn Tribool) :
    (parseEnd x g t rc).msg.headers = g.msg.headers := by
  rcases rc with e | b
  · rfl
  cases b with
  | false => rfl
  | indeterminate => rfl
  | true =>
    have hdone := finish_concluded (x := x) g.parser g.msg
    unfold parseEnd
    dsimp only
    rcases hfin : finish x { g.parser with messageParseState := .end } g.msg with ⟨m, e⟩
    rw [hfin] at hdone
    have hm : m.headers = g.msg.headers := by rw [show m = _ from hdone]
    cases e with
    | none => exact hm
    | some e => exact hm

/-- **No call of `parse` removes a header.** -/
theorem parse_stays (p : HttpParser) (m : HttpRequest) (ec : Option ErrorValue) (buf : Bytes) :
    HeadersStay m (parse x hook p m ec buf).msg := by
  have hopened : (opened p m ec buf).msg.headers = m.headers := by
    show (noteMissingPackets m).headers = m.headers
    rw [noteMissingPackets_frame]
  refine (headersStay_of_eq hopened).trans ?_
  exact (parseLoop_stays 3 _ 0).trans (headersStay_of_eq (parseEnd_headers _ _ _))

/-! ## Who asks -/

/-- The client asks for an interim response. -/
def AsksToContinue (m : HttpRequest) : Prop :=
  ∃ e ∈ m.headers, iequals e.1 (str "Expect") = true ∧ iequals (str "100-continue") e.2 = true

theorem AsksToContinue.stays {m m' : HttpRequest} (h : AsksToContinue m) (hstay : HeadersStay m m') :
    AsksToContinue m' := by
  obtain ⟨e, he, hname⟩ := h
  exact ⟨e, hstay he, hname⟩

theorem interimResponse_asks {m : HttpRequest} {ec : Option ErrorValue} {rc : Tribool}
    (h : HttpServer.interimResponse m ec rc ≠ []) : AsksToContinue m := by
  unfold HttpServer.interimResponse at h
  split at h
  · exact absurd rfl h
  · split at h
    · rename_i hexpect
      unfold HttpMessage.getHeader Dict.getValue Dict.lookup at hexpect
      cases hfind : m.headers.find? fun e => iequals e.1 (str "Expect") with
      | none =>
        rw [hfind] at hexpect
        exact absurd hexpect (by decide)
      | some e =>
        rw [hfind] at hexpect
        have hname := List.find?_some hfind
        exact ⟨e, List.mem_of_find?_eq_some hfind, hname, hexpect⟩
    · exact absurd rfl h

theorem interimHeadersCase_asks {g : Progress} (t : Nat) (h : interimHeadersCase x g ≠ []) :
    AsksToContinue (parseHeadersCase x hook g t).1.msg := by
  unfold interimHeadersCase at h
  unfold parseHeadersCase
  dsimp only at h ⊢
  split at h
  · rename_i hdone
    rw [if_pos hdone]
    unfold interimAfterHeaders at h
    dsimp only at h
    split at h
    · exact absurd rfl h
    · rename_i p m rc hd
      refine (interimResponse_asks h).stays (headersStay_of_eq ?_)
      rw [decideFraming_headers hd, beforeFraming_headers]
      exact finishHeaderParsing_headers _
  · exact absurd rfl h

theorem interimSwitch_asks {g : Progress} (t : Nat) (h : interimSwitch x g ≠ []) :
    AsksToContinue (parseSwitch x hook g t).1.msg := by
  unfold interimSwitch at h
  cases hst : g.parser.messageParseState with
  | start =>
    rw [hst] at h
    rw [parseSwitch_start hst]
    exact interimHeadersCase_asks t h
  | headers =>
    rw [hst] at h
    rw [parseSwitch_headers hst]
    exact interimHeadersCase_asks t h
  | footers =>
    rw [hst] at h
    rw [parseSwitch_footers hst]
    exact interimHeadersCase_asks t h
  | chunks | content | contentNoLength | «end» =>
    rw [hst] at h
    exact absurd rfl h

theorem interimLoop_asks : ∀ (n : Nat) (g : Progress) (t : Nat), interimLoop x hook n g t ≠ [] →
    AsksToContinue (parseLoop x hook n g t).1.msg := by
  intro n
  induction n with
  | zero => exact fun g t h => absurd rfl h
  | succ n ih =>
    intro g t h
    have hpass : interimSwitch x g ≠ [] → AsksToContinue (parseSwitch x hook g t).1.msg := interimSwitch_asks t
    rw [interimLoop] at h
    rw [parseLoop]
    rcases hr : parseSwitch x hook g t with ⟨g', t', rc⟩
    rw [hr] at h hpass
    rcases rc with e | b
    · exact hpass (by simpa using h)
    cases b with
    | true => exact hpass (by simpa using h)
    | false => exact hpass (by simpa using h)
    | indeterminate =>
      dsimp only at h ⊢
      by_cases hu : g'.unread = []
      · rw [if_pos hu, List.append_nil] at h
        rw [if_pos hu]
        exact hpass h
      · rw [if_neg hu] at h ⊢
        by_cases hnow : interimSwitch x g = []
        · rw [hnow, List.nil_append] at h
          exact ih g' t' h
        · exact (hpass hnow).stays (parseLoop_stays n g' t')

theorem interimParse_asks {p : HttpParser} {m : HttpRequest} {ec : Option ErrorValue} {buf : Bytes}
    (h : interimParse x hook p m ec buf ≠ []) : AsksToContinue (parse x hook p m ec buf).msg := by
  have hloop : AsksToContinue (parseLoop x hook 3 (opened p m ec buf) 0).1.msg := interimLoop_asks 3 _ 0 h
  exact hloop.stays (headersStay_of_eq (parseEnd_headers _ _ _))

/-! ## The reader -/

/-- What has become of the request that was being read: it has been passed on, or it is still being
read, or nothing more is. `asks` is what is known of it when it has asked. -/
structure RequestRead (c c' : Session) (asks : Prop) : Prop where
  outcome : (∃ h, c'.handled = c.handled ++ [h] ∧ (asks → AsksToContinue h.request)) ∨
    (c'.handled = c.handled ∧ (∀ d, c'.phase ≠ .handling d) ∧
      (c'.phase = .reading → asks → passes c'.reader.parser.messageParseState < 3 ∧
        AsksToContinue c'.reader.request))

theorem finishedReading_request (server : HttpServer) (c : Session) (ec : ReadError) {asks : Prop}
    (h : asks → AsksToContinue c.reader.request) :
    ∃ r, (c.finishedReading server ec).handled = c.handled ++ [r] ∧ (asks → AsksToContinue r.request) := by
  unfold Session.finishedReading
  exact ⟨_, rfl, h⟩

/-- The request that is read has asked if the interim response is written now, or if it was before. -/
theorem consumeBytes_request {s : Exchange} {c : Session} {ws : List OutstandingWrite}
    (hws : interimParse x s.http.handleRequestAfterHeadersParsed c.reader.parser c.reader.request none c.unread = ws)
    {asked : Prop} (hasked : asked → passes c.reader.parser.messageParseState < 3 ∧
      AsksToContinue c.reader.request) :
    RequestRead c (c.consumeBytes x s.http) (asked ∨ ws ≠ []) := by
  have hparse := parse_interim x s.http.handleRequestAfterHeadersParsed c.reader.parser c.reader.request none c.unread
  have hstays : HeadersStay c.reader.request (parse x s.http.handleRequestAfterHeadersParsed c.reader.parser
      c.reader.request none c.unread).msg := parse_stays _ _ _ _
  have hasks : asked ∨ ws ≠ [] → AsksToContinue (parse x s.http.handleRequestAfterHeadersParsed c.reader.parser
      c.reader.request none c.unread).msg := by
    rintro (hold | hnew)
    · exact (hasked hold).2.stays hstays
    · exact interimParse_asks (hws ▸ hnew)
  rw [hws] at hparse
  unfold Session.consumeBytes
  rcases hr : parse x s.http.handleRequestAfterHeadersParsed c.reader.parser c.reader.request none c.unread with
    ⟨g, rc⟩
  rw [hr] at hasks hparse
  unfold Session.afterParse
  dsimp only
  rcases rc with e | b
  · exact ⟨.inr ⟨rfl, fun d hd => (by cases hd), fun hp => (by cases hp)⟩⟩
  cases b with
  | true => exact ⟨.inl (finishedReading_request s.http _ _ hasks)⟩
  | false => exact ⟨.inl (finishedReading_request s.http _ _ hasks)⟩
  | indeterminate =>
    refine ⟨.inr ⟨rfl, fun d hd => (by cases hd), fun _ ha => ⟨hparse.behind ?_ rfl, hasks ha⟩⟩⟩
    rcases ha with hold | hnew
    · exact .inr (hasked hold).1
    · exact .inl hnew

theorem handleReadError_request {c : Session} {asked : Prop} (hasked : asked → AsksToContinue c.reader.request) :
    RequestRead c (c.handleReadError x server) asked := by
  have hstays : (c.reader.checkPrematureEof x).1.request.headers = c.reader.request.headers := by
    unfold HttpRequestReader.checkPrematureEof
    split
    · rfl
    · have hdone := finish_concluded (x := x) c.reader.parser
        { c.reader.request with toHttpMessage := c.reader.request.concatenateChunks }
      dsimp only
      rcases hfin : finish x { c.reader.parser with messageParseState := .end }
        { c.reader.request with toHttpMessage := c.reader.request.concatenateChunks } with ⟨m, e⟩
      rw [hfin] at hdone
      have hm : m.headers = c.reader.request.headers := by
        rw [show m = _ from hdone]
        rfl
      cases e with
      | none => exact hm
      | some e => exact hm
  have hasks : asked → AsksToContinue (c.reader.checkPrematureEof x).1.request := fun ha =>
    (hasked ha).stays (headersStay_of_eq hstays)
  unfold Session.handleReadError
  dsimp only
  rcases hr : c.reader.checkPrematureEof x with ⟨r, e | b⟩
  · exact ⟨.inr ⟨rfl, fun d hd => (by cases hd), fun hp => (by cases hp)⟩⟩
  rw [hr] at hasks
  cases b with
  | true => exact ⟨.inl (finishedReading_request server _ _ hasks)⟩
  | false => exact ⟨.inl (finishedReading_request server _ _ hasks)⟩

/-! ## The invariant -/

/-- The interim responses that are outstanding. -/
def interimsIn (s : Exchange) : List OutstandingWrite := s.writes.filter fun w => w.isInterim

/-- The interim responses that an event starts. -/
def startedInterims (x : Externals) (s : Exchange) (e : Exchange.Event) : List OutstandingWrite :=
  match s.step x e with
  | some s' => (interimsIn s').drop (interimsIn s).length
  | none => []

/-- The machine of the exchange, with all interim responses that have been started, each with the number of
the request that is being read: the one behind those that have been passed to `handle_request`. -/
def stepInviting (x : Externals) : Exchange × List (Nat × OutstandingWrite) → Exchange.Event →
    Option (Exchange × List (Nat × OutstandingWrite)) :=
  tracked (Exchange.step x) fun s e log => log ++ (startedInterims x s e).map fun w => (requestCount s + 1, w)

/-- The request that is being read has been answered by an interim response. -/
def Invited (s : Exchange) (log : List (Nat × OutstandingWrite)) : Prop := ∃ a ∈ log, a.1 = requestCount s + 1

structure InterimLog (s : Exchange) (log : List (Nat × OutstandingWrite)) : Prop where
  count : ∀ a ∈ log, 0 < a.1 ∧ a.1 ≤ requestCount s + 1
  ordered : log.Pairwise fun a b => a.1 < b.1
  bytes : ∀ a ∈ log, a.2 = .interim responseFullmessage100Continue
  asked : ∀ a ∈ log, ∀ r, s.session.handled[a.1 - 1]? = some r → AsksToContinue r.request

structure Inviting (s : Exchange) (log : List (Nat × OutstandingWrite)) : Prop extends InterimLog s log where
  current : Invited s log → answersIn s = [] ∧ s.responder = .nobody ∧ leaves s.session.phase = false ∧
    (s.session.phase = .reading → passes s.session.reader.parser.messageParseState < 3 ∧
      AsksToContinue s.session.reader.request)

variable {s s' : Exchange} {log : List (Nat × OutstandingWrite)}

theorem InterimLog.congr (h : InterimLog s log) (hhandled : s'.session.handled = s.session.handled) :
    InterimLog s' log := by
  have hcount : requestCount s' = requestCount s := congrArg List.length hhandled
  exact ⟨hcount ▸ h.count, h.ordered, h.bytes, hhandled ▸ h.asked⟩

/-- As long as no interim response has been written for the request, anything may happen to it. -/
theorem InterimLog.inviting (h : InterimLog s log) (hnot : ¬ Invited s log)
    (hhandled : s'.session.handled = s.session.handled) : Inviting s' log := by
  refine ⟨h.congr hhandled, fun hinvited => absurd hinvited ?_⟩
  unfold Invited requestCount at hnot ⊢
  rw [hhandled]
  exact hnot

/-- What `log` becomes in a step. -/
def invited (s s' : Exchange) (log : List (Nat × OutstandingWrite)) : List (Nat × OutstandingWrite) :=
  log ++ ((interimsIn s').drop (interimsIn s).length).map fun w => (requestCount s + 1, w)

theorem invited_same (h : (interimsIn s').length ≤ (interimsIn s).length)
    (log : List (Nat × OutstandingWrite)) : invited s s' log = log := by
  unfold invited
  rw [List.drop_eq_nil_of_le h, List.map_nil, List.append_nil]

theorem invited_append {ws : List OutstandingWrite} (h : interimsIn s' = interimsIn s ++ ws)
    (log : List (Nat × OutstandingWrite)) :
    invited s s' log = log ++ ws.map fun w => (requestCount s + 1, w) := by
  unfold invited
  rw [h, List.drop_left]

theorem InterimLog.quiet (h : InterimLog s log) (hnot : ¬ Invited s log)
    (hhandled : s'.session.handled = s.session.handled) (hfew : (interimsIn s').length ≤ (interimsIn s).length) :
    Inviting s' (invited s s' log) := by
  rw [invited_same hfew]
  exact h.inviting hnot hhandled

/-! ## The reader and its connection -/

/-- One more interim response, for the request that is being read. -/
theorem InterimLog.push (h : InterimLog s log) {ws : List OutstandingWrite}
    (hws : ws = [] ∨ ws = [.interim responseFullmessage100Continue] ∧ ¬ Invited s log) :
    InterimLog s (log ++ ws.map fun w => (requestCount s + 1, w)) := by
  rcases hws with rfl | ⟨rfl, hnot⟩
  · simpa using h
  have hnew : ∀ a ∈ log ++ [(requestCount s + 1, OutstandingWrite.interim responseFullmessage100Continue)],
      a ∈ log ∨ a = (requestCount s + 1, .interim responseFullmessage100Continue) := by
    intro a ha
    rcases List.mem_append.mp ha with hold | hnew
    · exact .inl hold
    · exact .inr (List.mem_singleton.mp hnew)
  refine ⟨fun a ha => ?_, ?_, fun a ha => ?_, fun a ha r hr => ?_⟩
  · rcases hnew a ha with hold | rfl
    · exact h.count a hold
    · exact ⟨Nat.succ_pos _, Nat.le_refl _⟩
  · refine List.pairwise_append.mpr ⟨h.ordered, List.pairwise_singleton _ _, fun a ha b hb => ?_⟩
    have hle := (h.count a ha).2
    have hne : a.1 ≠ requestCount s + 1 := fun heq => hnot ⟨a, ha, heq⟩
    rw [List.mem_singleton.mp hb]
    show a.1 < requestCount s + 1
    omega
  · rcases hnew a ha with hold | rfl
    · exact h.bytes a hold
    · rfl
  · rcases hnew a ha with hold | rfl
    · exact h.asked a hold r hr
    · -- it has not been passed on
      have hlt := (List.getElem?_eq_some_iff.mp hr).1
      exact absurd hlt (Nat.lt_irrefl _)

/-- The request that was being read is passed on, or nothing has happened to it. -/
theorem RequestRead.inviting (hread : RequestRead s.session s'.session (Invited s log)) (h : InterimLog s log)
    (hanswers : answersIn s' = []) (hresponder : s'.responder ≠ .nobody → ∃ d, s'.session.phase = .handling d) :
    Inviting s' log := by
  rcases hread.outcome with ⟨r, hhandled, hasks⟩ | ⟨hhandled, hphase, hasks⟩
  · have hcount : requestCount s' = requestCount s + 1 := by
      unfold requestCount
      rw [hhandled, List.length_append]
      rfl
    refine ⟨⟨fun a ha => ?_, h.ordered, h.bytes, fun a ha r' hr' => ?_⟩, fun hinvited => ?_⟩
    · have hold := h.count a ha
      omega
    · rw [hhandled] at hr'
      have hold := h.count a ha
      by_cases hlast : a.1 = requestCount s + 1
      · have hindex : a.1 - 1 = s.session.handled.length := by
          rw [hlast]
          rfl
        rw [hindex, List.getElem?_concat_length] at hr'
        obtain rfl := Option.some.inj hr'
        exact hasks ⟨a, ha, hlast⟩
      · have hlt : a.1 - 1 < s.session.handled.length := by
          show a.1 - 1 < requestCount s
          omega
        rw [List.getElem?_append_left hlt] at hr'
        exact h.asked a ha r' hr'
    · obtain ⟨a, ha, heq⟩ := hinvited
      have hold := (h.count a ha).2
      omega
  · refine ⟨h.congr hhandled, fun hinvited => ?_⟩
    have hold : Invited s log := by
      unfold Invited requestCount at hinvited ⊢
      rw [← hhandled]
      exact hinvited
    have hnobody : s'.responder = .nobody := by
      by_contra hr
      obtain ⟨d, hd⟩ := hresponder hr
      exact hphase d hd
    refine ⟨hanswers, hnobody, ?_, fun hp => hasks hp hold⟩
    cases hp : s'.session.phase with
    | handling d => exact absurd hp (hphase d)
    | reading | closed | failed => rfl

theorem interimsIn_append (s : Exchange) {ws : List OutstandingWrite} (h : ∀ w ∈ ws, w.isInterim = true) :
    (s.writes ++ ws).filter (fun w => w.isInterim) = interimsIn s ++ ws := by
  rw [List.filter_append, List.filter_eq_self.mpr h]
  rfl

theorem consumeBytes_inviting {c : Session} (h : InterimLog s log) (hanswers : answersIn s = [])
    (hc : c.handled = s.session.handled)
    (hinvited : Invited s log → passes c.reader.parser.messageParseState < 3 ∧ AsksToContinue c.reader.request) :
    Inviting (s.consumeBytes x c) (invited s (s.consumeBytes x c) log) := by
  have hparse := parse_interim x s.http.handleRequestAfterHeadersParsed c.reader.parser c.reader.request none c.unread
  generalize hws : interimParse x s.http.handleRequestAfterHeadersParsed c.reader.parser c.reader.request none
    c.unread = ws at hparse
  have hnext := consumeBytes_next (x := x) s hc
  have hinterims : interimsIn (s.consumeBytes x c) = interimsIn s ++ ws := by
    have hwrites : (s.consumeBytes x c).writes = s.writes ++ ws := by
      rw [← hws]
      rfl
    unfold interimsIn
    rw [hwrites]
    refine interimsIn_append s fun w hw => ?_
    rcases hparse.once with rfl | rfl
    · cases hw
    · rw [List.mem_singleton.mp hw]
      rfl
  rw [invited_append hinterims]
  have hlog : InterimLog s (log ++ ws.map fun w => (requestCount s + 1, w)) := by
    refine h.push ?_
    rcases hparse.once with hnone | hone
    · exact .inl hnone
    · refine .inr ⟨hone, fun hi => ?_⟩
      have hhead := hparse.inHead (by simp [hone])
      have hlt := (hinvited hi).1
      omega
  have hread := consumeBytes_request hws hinvited
  have hinvited' : Invited s (log ++ ws.map fun w => (requestCount s + 1, w)) → Invited s log ∨ ws ≠ [] := by
    rintro ⟨a, ha, heq⟩
    rcases List.mem_append.mp ha with hold | hnew
    · exact .inl ⟨a, hold, heq⟩
    · refine .inr fun hnil => ?_
      rw [hnil] at hnew
      cases hnew
  refine RequestRead.inviting (s := s) ⟨?_⟩ hlog (hnext.answers.trans hanswers) takeOver_handling
  have hout := hread.outcome
  rw [hc] at hout
  rcases hout with ⟨r, hr, hasks⟩ | ⟨hr, hp, hasks⟩
  · exact .inl ⟨r, hr, fun hi => hasks (hinvited' hi)⟩
  · exact .inr ⟨hr, hp, fun hreading hi => hasks hreading (hinvited' hi)⟩

theorem finishConnection_inviting (h : InterimLog s log) (hnot : ¬ Invited s log) (hanswers : answersIn s = [])
    (i j : Nat) : Inviting (s.finishConnection x i j) (invited s (s.finishConnection x i j) log) := by
  unfold Exchange.finishConnection
  split
  · unfold Exchange.handleConnection Exchange.receive
    split
    · exact consumeBytes_inviting h hanswers rfl fun hi => absurd hi hnot
    · exact h.quiet hnot rfl (Nat.le_refl _)
  · exact h.quiet hnot rfl (Nat.le_refl _)

/-! ## Steps -/

theorem Inviting.not_invited (h : Inviting s log)
    (hbusy : answersIn s ≠ [] ∨ s.responder ≠ .nobody ∨ leaves s.session.phase = true) : ¬ Invited s log := by
  intro hinvited
  obtain ⟨hanswers, hresponder, hleaves, _⟩ := h.current hinvited
  rcases hbusy with hn | hn | hn
  · exact hn hanswers
  · exact hn hresponder
  · rw [hleaves] at hn
    cases hn

theorem sent_inviting {alog : List (Nat × OutstandingWrite)} (h : Inviting s log) (ha : Answering s alog)
    {w : HttpResponseWriter} (hw : s.writer = some w) (r : HttpResponseWriter × Send)
    {outstanding : HttpResponseWriter → List Bytes → OutstandingWrite}
    (hnot : ∀ v b, (outstanding v b).isInterim = false) (i j : Nat) :
    Inviting (s.sent x r outstanding i j) (invited s (s.sent x r outstanding i j) log) := by
  have hresponder := responder_of_writer hw
  have hquiet := h.not_invited (.inr (.inl hresponder))
  unfold Exchange.sent
  dsimp only
  cases r.2 with
  | finish =>
    generalize hlost : ({ s with
      session := { s.session with conn := r.1.tcpConn }
      responder := .nobody } : Exchange) = lost
    have hanswers : answersIn lost = [] := by
      rw [← hlost]
      exact (ha.responder hresponder).1
    have hlog : InterimLog lost log := h.toInterimLog.congr (by rw [← hlost])
    have hquiet' : ¬ Invited lost log := by
      rw [← hlost]
      exact hquiet
    have hend := finishConnection_inviting (x := x) hlog hquiet' hanswers i j
    have hsame : invited s (lost.finishConnection x i j) log = invited lost (lost.finishConnection x i j) log := by
      rw [← hlost]
      rfl
    show Inviting (lost.finishConnection x i j) (invited s (lost.finishConnection x i j) log)
    rw [hsame]
    exact hend
  | write buffers =>
    refine h.quiet hquiet rfl ?_
    show ((s.writes ++ [outstanding r.1 buffers]).filter _).length ≤ _
    rw [List.filter_append]
    simp [hnot, interimsIn]

theorem filter_eraseIdx {α : Type*} {p : α → Bool} {l : List α} {k : Nat} {a : α} (h : l[k]? = some a)
    (ha : p a = false) : (l.eraseIdx k).filter p = l.filter p := by
  obtain ⟨hk, hget⟩ := List.getElem?_eq_some_iff.mp h
  have hsplit : l = l.take k ++ a :: l.drop (k + 1) := by
    rw [← hget, List.getElem_cons_drop hk, List.take_append_drop]
  conv_rhs => rw [hsplit]
  rw [List.eraseIdx_eq_take_drop_succ, List.filter_append, List.filter_append,
    List.filter_cons_of_neg (by simp [ha])]

/-- The writes that are left are no more, and the interim responses among them no more. -/
theorem interimsIn_eraseIdx (s : Exchange) (k : Nat) :
    (interimsIn { s with writes := s.writes.eraseIdx k }).length ≤ (interimsIn s).length :=
  ((List.eraseIdx_sublist s.writes k).filter _).length_le

theorem written_inviting {alog : List (Nat × OutstandingWrite)} (h : Inviting s log) (ha : Answering s alog)
    {k : Nat} {w : OutstandingWrite} (hw : s.writes[k]? = some w) (i j : Nat) :
    Inviting ({ s with writes := s.writes.eraseIdx k }.completed x w i j)
      (invited s ({ s with writes := s.writes.eraseIdx k }.completed x w i j) log) := by
  have hfew := interimsIn_eraseIdx s k
  have herase := answersIn_eraseIdx ha.few hw
  have hbusy : w.isInterim = false → ¬ Invited s log := by
    intro hinterim
    refine h.not_invited (.inl ?_)
    refine List.ne_nil_of_mem (List.mem_filter.mpr ⟨List.mem_of_getElem? hw, ?_⟩)
    rw [hinterim]
    rfl
  cases w with
  | interim b =>
    show Inviting { s with writes := s.writes.eraseIdx k } (invited s { s with writes := s.writes.eraseIdx k } log)
    rw [invited_same hfew]
    refine ⟨h.toInterimLog.congr rfl, fun hinvited => ?_⟩
    obtain ⟨hanswers, hrest⟩ := h.current hinvited
    exact ⟨Eq.trans herase hanswers, hrest⟩
  | chunk writer b => exact h.quiet (hbusy rfl) rfl hfew
  | handshake => exact h.quiet (hbusy rfl) rfl hfew
  | last b =>
    have hend := finishConnection_inviting (x := x) (s := { s with writes := s.writes.eraseIdx k })
      (h.toInterimLog.congr rfl) (hbusy rfl) herase i j
    have hsame : interimsIn { s with writes := s.writes.eraseIdx k } = interimsIn s := filter_eraseIdx hw rfl
    unfold invited at hend
    rw [hsame] at hend
    exact hend

/-- A closed socket, or a server that no longer listens, says nothing about the requests. -/
theorem Inviting.closing (h : Inviting s log) (isOpen : Bool) (http : HttpServer) :
    let s' := { s with http := http, session := { s.session with conn := { s.session.conn with isOpen := isOpen } } }
    Inviting s' (invited s s' log) := by
  intro s'
  have hsame : invited s s' log = log := invited_same (Nat.le_refl _) log
  rw [hsame]
  exact ⟨h.toInterimLog.congr rfl, h.current⟩

theorem step_inviting {alog : List (Nat × OutstandingWrite)} {e : Exchange.Event} (h : Inviting s log)
    (ha : Answering s alog) (hstep : s.step x e = some s') : Inviting s' (invited s s' log) := by
  unfold Exchange.step at hstep
  cases e with
  | read data =>
    dsimp only at hstep
    split at hstep
    · rename_i hphase
      obtain rfl := Option.some.inj hstep
      exact consumeBytes_inviting h.toInterimLog (ha.reading hphase.1) rfl fun hi => (h.current hi).2.2.2 hphase.1
    · cases hstep
  | readError =>
    dsimp only at hstep
    split at hstep
    · rename_i hphase
      obtain rfl := Option.some.inj hstep
      have hsame : invited s (s.handleReadError x) log = log := invited_same (Nat.le_refl _) log
      rw [hsame]
      have hread : RequestRead s.session (s.session.handleReadError x s.http) (Invited s log) :=
        handleReadError_request fun hi => ((h.current hi).2.2.2 hphase).2
      have hanswers : answersIn (s.handleReadError x) = [] := ha.reading hphase
      exact RequestRead.inviting hread h.toInterimLog hanswers takeOver_handling
    · cases hstep
  | finish i j =>
    have hleaving : leaves s.session.phase = true → Inviting (s.finishConnection x i j)
        (invited s (s.finishConnection x i j) log) := by
      intro hl
      have hclosed : s.finishConnection x i j =
          { s with session := { s.session with phase := .closed }, responder := .nobody } := by
        unfold Exchange.finishConnection
        rw [if_neg (by simp [ha.leaving hl])]
      rw [hclosed]
      exact h.quiet (h.not_invited (.inr (.inr hl))) rfl (Nat.le_refl _)
    dsimp only at hstep
    split at hstep
    · rename_i hp
      obtain rfl := Option.some.inj hstep
      exact hleaving (by rw [hp]; rfl)
    · rename_i hp _
      obtain rfl := Option.some.inj hstep
      exact hleaving (by rw [hp]; rfl)
    · cases hstep
  | call c =>
    obtain ⟨w, hw, rfl⟩ := Option.map_eq_some_iff.mp hstep
    exact h.quiet (h.not_invited (.inr (.inl (responder_of_writer hw)))) rfl (Nat.le_refl _)
  | send i j =>
    dsimp only at hstep
    split at hstep
    · rename_i w hw
      split at hstep
      · cases hstep
      · obtain rfl := Option.some.inj hstep
        exact sent_inviting h ha hw _ (fun _ _ => rfl) i j
    · cases hstep
  | sendChunk i j =>
    obtain ⟨w, hw, rfl⟩ := Option.map_eq_some_iff.mp hstep
    exact sent_inviting h ha hw _ (fun _ _ => rfl) i j
  | sendFinalChunk i j =>
    obtain ⟨w, hw, rfl⟩ := Option.map_eq_some_iff.mp hstep
    exact sent_inviting h ha hw _ (fun _ _ => rfl) i j
  | start =>
    dsimp only at hstep
    split at hstep
    · rename_i hresponder
      obtain rfl := Option.some.inj hstep
      refine h.quiet (h.not_invited (.inr (.inl (by simp [hresponder])))) rfl ?_
      show ((s.writes ++ [OutstandingWrite.handshake]).filter _).length ≤ _
      rw [List.filter_append]
      simp [interimsIn, OutstandingWrite.isInterim]
    all_goals cases hstep
  | written k i j =>
    obtain ⟨w, hw, rfl⟩ := Option.map_eq_some_iff.mp hstep
    exact written_inviting h ha hw i j
  | close =>
    obtain rfl := Option.some.inj hstep
    exact h.closing false s.http
  | stop waitUntilFinished =>
    obtain rfl := Option.some.inj hstep
    cases waitUntilFinished with
    | true => exact h.closing s.session.conn.isOpen { s.http with listening := false }
    | false => exact h.closing false { s.http with listening := false }

/-! ## Runs -/

/-- **Each request is sent one interim response at most, and only if it asks for one**, in every run: each
is for the request behind those that have been passed to `handle_request`, no two are for one request, and
a request that is passed on after an interim response has the header that asks for it. -/
theorem interims_asked (x : Externals) (http : HttpServer) (i j : Nat) (es : List Exchange.Event) (s : Exchange)
    (log : List (Nat × OutstandingWrite))
    (hrun : exec (stepInviting x) (.accepted x http i j, []) es = some (s, log)) :
    (∀ a ∈ log, a.2 = .interim responseFullmessage100Continue ∧ 0 < a.1 ∧ a.1 ≤ requestCount s + 1) ∧
      log.Pairwise (fun a b => a.1 < b.1) ∧
      ∀ a ∈ log, ∀ r, s.session.handled[a.1 - 1]? = some r → AsksToContinue r.request := by
  have hanswering : Answering (.accepted x http i j) [] := answering_accepted x http i j
  have hstart : Inviting (.accepted x http i j) [] := {
    count := by intro a ha; cases ha
    ordered := List.Pairwise.nil
    bytes := by intro a ha; cases ha
    asked := by intro a ha; cases ha
    current := by rintro ⟨a, ha, _⟩; cases ha }
  have hend : (∃ alog, Answering s alog) ∧ Inviting s log := by
    refine exec_invariant (fun _ t => (∃ alog, Answering t.1 alog) ∧ Inviting t.1 t.2) ⟨⟨[], hanswering⟩, hstart⟩
      ?_ hrun
    rintro _ ⟨t, l⟩ e ⟨t', l'⟩ _ ⟨⟨alog, ha⟩, h⟩ hs
    obtain ⟨hstep, hnote⟩ := tracked_eq_some.mp hs
    dsimp only at hstep hnote ha h ⊢
    rw [← hnote]
    unfold startedInterims
    rw [hstep]
    exact ⟨⟨_, step_answering ha hstep⟩, step_inviting h ha hstep⟩
  exact ⟨fun a ha => ⟨hend.2.bytes a ha, hend.2.count a ha⟩, hend.2.ordered, hend.2.asked⟩

/-- A request that asks, one that does not, and another that asks. -/
def askedTwice : List Exchange.Event :=
  [.read (str "GET /a HTTP/1.1\r\nExpect: 100-continue\r\n\r\n"), .written 0 0 0, .send 0 0, .written 0 0 0,
    .read (str "GET /b HTTP/1.1\r\n\r\n"), .send 0 0, .written 0 0 0,
    .read (str "GET /c HTTP/1.1\r\nExpect: 100-continue\r\n\r\n")]

theorem interims_asked_twice :
    ∃ s log, exec (stepInviting plainExternals) (.accepted plainExternals {} 0 0, []) askedTwice = some (s, log) ∧
      log.map (·.1) = [1, 3] ∧
      (∀ a ∈ log, a.2 = .interim responseFullmessage100Continue ∧ 0 < a.1 ∧ a.1 ≤ requestCount s + 1) ∧
      log.Pairwise (fun a b => a.1 < b.1) ∧
      ∀ a ∈ log, ∀ r, s.session.handled[a.1 - 1]? = some r → AsksToContinue r.request := by
  obtain ⟨⟨s, log⟩, hs, hlog⟩ := Option.map_eq_some_iff.mp (show (exec (stepInviting plainExternals)
    (.accepted plainExternals {} 0 0, []) askedTwice).map (·.2.map (·.1)) = some [1, 3] by decide +kernel)
  exact ⟨s, log, hs, hlog, interims_asked plainExternals {} 0 0 askedTwice s log hs⟩

end Pion.Proof
