import Pion.Lib.Machine
import Pion.Exchange
import Pion.Proof.Dispatch
import Pion.Proof.ResponseBody

/-!
# One write at a time

A response is written piece by piece, each piece after the one before, and a reader works only
when there is no response under way. The one write that nothing waits for is the interim
response, so two writes are outstanding when the answer is begun before that one has completed.

The interim response itself is written at most once for each request: the hook is called at the
end of the headers, and no reader comes back to them.
-/

namespace Pion.Proof

open Pion Lib

variable {x : Externals} {hook : Hook} {server : HttpServer}

/-! ## The session of an exchange

Beside its writes, an exchange does with its session what the server does. -/

@[simp] theorem consumeBytes_session (s : Exchange) (c : Session) :
    (s.consumeBytes x c).session = c.consumeBytes x s.http := rfl

@[simp] theorem readCompletes_session (s : Exchange) (data : Bytes) :
    (s.readCompletes x data).session = s.session.readCompletes x s.http data := rfl

@[simp] theorem handleReadError_session (s : Exchange) :
    (s.handleReadError x).session = s.session.handleReadError x s.http := rfl

@[simp] theorem handleConnection_session (s : Exchange) (i j : Nat) :
    (s.handleConnection x i j).session = s.session.handleConnection x s.http i j := by
  unfold Exchange.handleConnection Exchange.receive Session.handleConnection Session.receive
  split
  · rfl
  · rfl

@[simp] theorem finishConnection_session (s : Exchange) (i j : Nat) :
    (s.finishConnection x i j).session = s.session.finishConnection x s.http i j := by
  unfold Exchange.finishConnection Session.finishConnection
  split
  · exact handleConnection_session s i j
  · rfl

/-! ## The phases of a message never go back -/

/-- Behind the headers comes the body, unless the framing cannot be read. -/
theorem finishHeaderParsing_passes {g : Progress}
    (h : (finishHeaderParsing x hook g).2 ≠ .ok .false) :
    passes (finishHeaderParsing x hook g).1.parser.messageParseState < 3 := by
  rw [finishHeaderParsing_eq] at h ⊢
  cases hd : decideFraming x (beforeFraming x g.parser g.msg).1 (beforeFraming x g.parser g.msg).2 with
  | none =>
    rw [hd] at h
    exact absurd rfl h
  | some d =>
    obtain ⟨p, m, rc⟩ := d
    have hlt : passes p.messageParseState < 3 := by
      rcases (decideFraming_cases hd).1 with hst | hst | hst
      · rw [hst]
        decide
      · rw [hst]
        decide
      · rw [hst]
        decide
    dsimp only
    cases hook m g.ec rc with
    | error e => exact hlt
    | ok r => exact hlt

/-- What has been written between two states of the parser, of which the second may want more. -/
structure InterimBetween (ws : List OutstandingWrite) (st : MessageParseState)
    (rc : Except Exn Tribool) (st' : MessageParseState) : Prop where
  once : ws = [] ∨ ws = [.interim responseFullmessage100Continue]
  inHead : ws ≠ [] → passes st = 3
  /-- Behind the hook comes the body, and behind the headers the message stays. -/
  behind : ws ≠ [] ∨ passes st < 3 → rc = .ok .indeterminate → passes st' < 3

/-- What a pass of the loop in `parse` writes. -/
def InterimPass (ws : List OutstandingWrite) (g : Progress)
    (r : Progress × Nat × Except Exn Tribool) : Prop :=
  InterimBetween ws g.parser.messageParseState r.2.2 r.1.parser.messageParseState

theorem InterimPass.silent {g : Progress} {r : Progress × Nat × Except Exn Tribool}
    (h : r.2.2 = .ok .indeterminate →
      passes r.1.parser.messageParseState ≤ passes g.parser.messageParseState) :
    InterimPass [] g r where
  once := Or.inl rfl
  inHead := by
    intro hne
    exact absurd rfl hne
  behind := by
    intro hor hrc
    have hle := h hrc
    rcases hor with hne | hlt
    · exact absurd rfl hne
    · omega

theorem interimResponse_once (m : HttpRequest) (ec : Option ErrorValue) (rc : Tribool) :
    HttpServer.interimResponse m ec rc = [] ∨
      HttpServer.interimResponse m ec rc = [.interim responseFullmessage100Continue] := by
  unfold HttpServer.interimResponse
  split
  · exact Or.inl rfl
  · split
    · exact Or.inr rfl
    · exact Or.inl rfl

theorem interimAfterHeaders_once (x : Externals) (g : Progress) :
    interimAfterHeaders x g = [] ∨
      interimAfterHeaders x g = [.interim responseFullmessage100Continue] := by
  unfold interimAfterHeaders
  dsimp only
  split
  · exact Or.inl rfl
  · exact interimResponse_once _ _ _

theorem headersCase_interim (x : Externals) (hook : Hook) (g : Progress) (t : Nat) :
    InterimPass (interimHeadersCase x g) g (parseHeadersCase x hook g t) := by
  obtain ⟨_, _, hstate, _⟩ := parseHeaders_keeps (x := x) g
  unfold interimHeadersCase parseHeadersCase
  dsimp only
  by_cases hdone : (parseHeaders x g).2 = .true ∧ (parseHeaders x g).1.parser.messageParseState = .headers
  · rw [if_pos hdone, if_pos hdone]
    have hg : passes g.parser.messageParseState = 3 := by
      rw [← hstate, hdone.2]
      rfl
    refine ⟨interimAfterHeaders_once x _, fun _ => hg, ?_⟩
    intro _ hrc
    refine finishHeaderParsing_passes ?_
    rw [hrc]
    simp
  · rw [if_neg hdone, if_neg hdone]
    refine InterimPass.silent ?_
    intro _
    rw [hstate]

theorem chunksCase_passes {g : Progress} {t : Nat} (hst : g.parser.messageParseState = .chunks)
    (h : (parseChunksCase g t).2.2 = .ok .indeterminate) :
    passes (parseChunksCase g t).1.parser.messageParseState ≤ passes g.parser.messageParseState := by
  obtain ⟨_, _, _, hkeeps⟩ := parseChunks_keeps g
  unfold parseChunksCase at h ⊢
  dsimp only at h ⊢
  cases hrc : (parseChunks g).2 with
  | none =>
    rw [hrc] at h
    cases h
  | some rc =>
    rw [hrc] at h hkeeps
    dsimp only at h ⊢
    by_cases hdone : rc = .true ∧ (parseChunks g).1.parser.payloadHandler.isNone = true
    · rw [if_pos hdone] at h ⊢
      dsimp only at h ⊢
      by_cases hf : (parseChunks g).1.parser.messageParseState = .footers
      · rw [hf, hst]
        decide
      · rw [if_neg hf] at h
        cases h
    · rw [if_neg hdone] at h ⊢
      injection h with h
      rw [hkeeps (by rw [h])]

theorem switch_interim (x : Externals) (hook : Hook) (g : Progress) (t : Nat) :
    InterimPass (interimSwitch x g) g (parseSwitch x hook g t) := by
  unfold interimSwitch
  cases hst : g.parser.messageParseState with
  | start =>
    have h := headersCase_interim x hook
      { g with parser := { g.parser with messageParseState := .headers } } t
    rw [parseSwitch_start hst]
    unfold InterimPass
    rw [hst]
    exact ⟨h.once, h.inHead, h.behind⟩
  | headers =>
    rw [parseSwitch_headers hst]
    exact headersCase_interim x hook g t
  | footers =>
    rw [parseSwitch_footers hst]
    exact headersCase_interim x hook g t
  | chunks =>
    rw [parseSwitch_chunks hst]
    exact InterimPass.silent (chunksCase_passes hst)
  | content =>
    rw [parseSwitch_content hst]
    refine InterimPass.silent ?_
    intro _
    cases (consumeContent g).2 with
    | none => exact Nat.le_of_eq (congrArg passes (consumeContent_state g))
    | some rc => exact Nat.le_of_eq (congrArg passes (consumeContent_state g))
  | contentNoLength =>
    rw [parseSwitch_contentNoLength hst]
    refine InterimPass.silent ?_
    intro _
    cases (consumeContentAsNextChunk g).2 with
    | none => exact Nat.le_of_eq (congrArg passes (consumeContentAsNextChunk_state g))
    | some u => exact Nat.le_of_eq (congrArg passes (consumeContentAsNextChunk_state g))
  | «end» =>
    rw [parseSwitch_end hst]
    exact InterimPass.silent fun _ => Nat.le_refl _

theorem interimSwitch_behind {g : Progress} (h : passes g.parser.messageParseState < 3) :
    interimSwitch x g = [] := by
  by_contra hne
  have hhead := (switch_interim x noHook g 0).inHead hne
  omega

theorem loop_behind (x : Externals) (hook : Hook) :
    ∀ (n : Nat) (g : Progress) (t : Nat), passes g.parser.messageParseState < 3 →
    interimLoop x hook n g t = [] ∧ ((parseLoop x hook n g t).2.2 = .ok .indeterminate →
      passes (parseLoop x hook n g t).1.parser.messageParseState < 3) := by
  intro n
  induction n with
  | zero => exact fun g t h => ⟨rfl, fun _ => h⟩
  | succ n ih =>
    intro g t h
    have hpass := switch_interim x hook g t
    rw [interimLoop, parseLoop, interimSwitch_behind h, List.nil_append]
    rcases hr : parseSwitch x hook g t with ⟨g', t', rc⟩
    rw [hr] at hpass
    rcases rc with e | b
    · exact ⟨rfl, fun hn => by cases hn⟩
    cases b with
    | true => exact ⟨rfl, fun hn => by cases hn⟩
    | false => exact ⟨rfl, fun hn => by cases hn⟩
    | indeterminate =>
      have hlt : passes g'.parser.messageParseState < 3 := hpass.behind (Or.inr h) rfl
      dsimp only
      by_cases hu : g'.unread = []
      · rw [if_pos hu, if_pos hu]
        exact ⟨rfl, fun _ => hlt⟩
      · rw [if_neg hu, if_neg hu]
        exact ih g' t' hlt

/-- Only the first pass of the loop can come to the end of the headers. -/
theorem loop_interim (x : Externals) (hook : Hook) (n : Nat) (g : Progress) (t : Nat) :
    InterimPass (interimLoop x hook (n + 1) g t) g (parseLoop x hook (n + 1) g t) := by
  have hpass := switch_interim x hook g t
  have hspec := parseSwitch_spec x hook g t
  rw [interimLoop, parseLoop]
  rcases hr : parseSwitch x hook g t with ⟨g', t', rc⟩
  rw [hr] at hpass hspec
  rcases rc with e | b
  · rw [List.append_nil]
    exact hpass
  cases b with
  | true =>
    rw [List.append_nil]
    exact hpass
  | false =>
    rw [List.append_nil]
    exact hpass
  | indeterminate =>
    dsimp only
    by_cases hu : g'.unread = []
    · rw [if_pos hu, if_pos hu, List.append_nil]
      exact hpass
    · -- with bytes at hand the next pass is behind the headers
      have hlt : passes g'.parser.messageParseState < passes g.parser.messageParseState :=
        hspec.order rfl hu
      have hmost : passes g.parser.messageParseState ≤ 3 := by
        cases g.parser.messageParseState <;> decide
      obtain ⟨hnone, hbehind⟩ := loop_behind x hook n g' t' (by omega)
      rw [if_neg hu, if_neg hu, hnone, List.append_nil]
      exact ⟨hpass.once, hpass.inHead, fun _ => hbehind⟩

/-- **The interim response of a request is written once at most**, and then its headers are
behind the reader. -/
theorem parse_interim (x : Externals) (hook : Hook) (p : HttpParser) (m : HttpRequest)
    (ec : Option ErrorValue)
    (buf : Bytes) :
    InterimBetween (interimParse x hook p m ec buf) p.messageParseState (parse x hook p m ec buf).rc
      (parse x hook p m ec buf).parser.messageParseState := by
  have hloop := loop_interim x hook 2 (opened p m ec buf) 0
  refine ⟨hloop.once, hloop.inHead, ?_⟩
  intro hor hrc
  rcases hr : parseLoop x hook 3 (opened p m ec buf) 0 with ⟨g, t, rc⟩
  rw [parse_of_loop hr] at hrc ⊢
  obtain rfl := parseEnd_indeterminate hrc
  have hbehind := hloop.behind hor
  rw [hr] at hbehind
  exact hbehind rfl

/-! ## The invariant -/

/-- The connection is closed as soon as `finish()` is called. -/
def leaves : Phase → Bool
  | .handling .finish | .handling (.websocket _ _ _) => true
  | _ => false

structure Orderly (s : Exchange) : Prop where
  one : s.writes.length ≤ 1
  /-- A reader works next to an interim response at most, and then inside the body. -/
  reading : s.session.phase = .reading → ∀ w ∈ s.writes,
    w.isInterim = true ∧ passes s.session.reader.parser.messageParseState < 3
  /-- So does whoever is about to answer, when the reader is done. -/
  responder : s.responder ≠ .nobody → s.session.phase ≠ .reading ∧
    ∀ w ∈ s.writes, w.isInterim = true
  leaving : leaves s.session.phase = true → s.session.conn.getKeepAlive = false

theorem handleRequest_leaves {conn : TcpConnection} {ec : ReadError} {m : HttpRequest}
    {d : Dispatch}
    (h : (server.handleRequest conn ec m).2 = .ok d) (hd : leaves (.handling d) = true) :
    (server.handleRequest conn ec m).1.getKeepAlive = false := by
  unfold HttpServer.handleRequest at h ⊢
  split
  · rfl
  · rename_i hvalid
    rw [if_neg hvalid] at h
    split
    · rename_i hws
      rw [if_pos hws] at h
      dsimp only at h ⊢
      split
      · rfl
      · rename_i hfound
        rw [if_neg hfound] at h
        cases h
        cases hd
    · rename_i hws
      rw [if_neg hws] at h
      dsimp only at h
      -- what is left is answered by a handler
      split at h
      · cases h
        cases hd
      · split at h
        · cases h
        · split at h
          · cases h
            cases hd
          · cases h
            cases hd

theorem finishedReading_leaves (server : HttpServer) {c : Session} {ec : ReadError}
    (h : leaves (c.finishedReading server ec).phase = true) :
    (c.finishedReading server ec).conn.getKeepAlive = false := by
  unfold Session.finishedReading at h ⊢
  dsimp only at h ⊢
  cases hd : (server.handleRequest c.conn ec c.reader.request).2 with
  | error e =>
    rw [hd] at h
    cases h
  | ok d =>
    rw [hd] at h
    exact handleRequest_leaves hd h

theorem afterParse_leaves {c : Session} {r : ParseResult}
    (h : leaves (c.afterParse server r).phase = true) :
    (c.afterParse server r).conn.getKeepAlive = false := by
  unfold Session.afterParse at h ⊢
  dsimp only at h ⊢
  rcases hrc : r.rc with e | b
  · rw [hrc] at h
    cases h
  rw [hrc] at h
  cases b with
  | true => exact finishedReading_leaves server h
  | false => exact finishedReading_leaves server h
  | indeterminate => cases h

theorem handleReadError_leaves {c : Session}
    (h : leaves (c.handleReadError x server).phase = true) :
    (c.handleReadError x server).conn.getKeepAlive = false := by
  unfold Session.handleReadError at h ⊢
  dsimp only at h ⊢
  rcases hr : c.reader.checkPrematureEof x with ⟨r, e | b⟩
  · rw [hr] at h
    cases h
  rw [hr] at h
  cases b with
  | true => exact finishedReading_leaves server h
  | false => exact finishedReading_leaves server h

theorem handleReadError_phase (c : Session) : (c.handleReadError x server).phase ≠ .reading := by
  unfold Session.handleReadError
  dsimp only
  rcases c.reader.checkPrematureEof x with ⟨r, e | b⟩
  · exact fun h => by cases h
  cases b with
  | true => exact finishedReading_phase server _ _
  | false => exact finishedReading_phase server _ _

/-! ## Steps -/

theorem takeOver_responder {s : Exchange} (h : s.takeOver.responder ≠ .nobody) :
    s.session.phase ≠ .reading := by
  intro hphase
  refine h ?_
  unfold Exchange.takeOver
  dsimp only
  rw [hphase]

/-- A reader goes on next to an interim response, if its headers are behind it. -/
theorem consumeBytes_orderly {s : Exchange} {c : Session} (hone : s.writes.length ≤ 1)
    (h : ∀ w ∈ s.writes, w.isInterim = true ∧
      passes c.reader.parser.messageParseState < 3) :
    Orderly (s.consumeBytes x c) := by
  have hparse := parse_interim x s.http.handleRequestAfterHeadersParsed c.reader.parser
    c.reader.request none c.unread
  generalize hws : interimParse x s.http.handleRequestAfterHeadersParsed c.reader.parser
    c.reader.request none c.unread = ws at hparse
  have hwrites : (s.consumeBytes x c).writes = s.writes ++ ws := by
    rw [← hws]
    rfl
  have hinterim : ∀ w ∈ s.writes ++ ws, w.isInterim = true := by
    intro w hw
    rcases List.mem_append.mp hw with hold | hnew
    · exact (h w hold).1
    · rcases hparse.once with rfl | rfl
      · cases hnew
      · rw [List.mem_singleton.mp hnew]
        rfl
  refine ⟨?_, ?_, ?_, afterParse_leaves⟩
  · rw [hwrites, List.length_append]
    cases hold : s.writes with
    | nil =>
      rcases hparse.once with rfl | rfl
      · simp
      · simp
    | cons w rest =>
      -- the headers are behind the reader, so nothing is written now
      have hlt := (h w (by rw [hold]; exact List.mem_cons_self)).2
      have hnone : ws = [] := by
        by_contra hne
        have hhead := hparse.inHead hne
        omega
      rw [hnone, ← hold]
      exact hone
  · intro hphase w hw
    rw [hwrites] at hw
    refine ⟨hinterim w hw, ?_⟩
    rw [consumeBytes_session] at hphase ⊢
    have hrc := (afterParse_reading s.http c _).mp hphase
    unfold Session.consumeBytes
    rw [afterParse_waits hrc]
    refine hparse.behind ?_ hrc
    rcases List.mem_append.mp hw with hold | hnew
    · exact Or.inr (h w hold).2
    · exact Or.inl (List.ne_nil_of_mem hnew)
  · intro hresponder
    rw [hwrites]
    exact ⟨takeOver_responder hresponder, hinterim⟩

theorem finishConnection_orderly {s : Exchange} (hone : s.writes.length ≤ 1)
    (h : s.session.conn.getKeepAlive = true → s.writes = []) (i j : Nat) :
    Orderly (s.finishConnection x i j) := by
  unfold Exchange.finishConnection
  split
  · rename_i hgo
    have hnone := h hgo.2
    unfold Exchange.handleConnection Exchange.receive
    split
    · exact consumeBytes_orderly hone (by simp [hnone])
    · exact {
        one := hone
        reading := by simp [hnone]
        responder := by intro hn; exact absurd rfl hn
        leaving := by intro hn; cases hn }
  · exact {
      one := hone
      reading := by intro hn; cases hn
      responder := by intro hn; exact absurd rfl hn
      leaving := by intro hn; cases hn }

/-- What a send does with the connection: nothing is written if it is lost, and it may be marked
for closing. -/
structure SendSpec (conn : TcpConnection) (r : HttpResponseWriter × Send) : Prop where
  marked : r.1.tcpConn = conn ∨ r.1.tcpConn = conn.setLifecycle .close
  lost : r.2 = .finish ↔ conn.isOpen = false

theorem sendMoreData_sends (w : HttpResponseWriter) (final : Bool) :
    SendSpec w.tcpConn (w.sendMoreData x final) where
  marked := by
    cases hopen : w.tcpConn.isOpen with
    | false => simp [sendMoreData_closed hopen]
    | true => simp [(sendMoreData_open (x := x) hopen final).1]
  lost := sendMoreData_finish_iff w final

theorem sendChunk_sends (w : HttpResponseWriter) : SendSpec w.tcpConn (w.sendChunk x) := by
  have h := sendMoreData_sends (x := x) (chunking w) false
  rw [sendChunk_eq_sendMoreData]
  refine ⟨?_, by rw [h.lost, chunking_isOpen]⟩
  cases hchunks : w.clientSupportsChunks with
  | true =>
    have hconn : (chunking w).tcpConn = w.tcpConn := if_pos hchunks
    rw [← hconn]
    exact h.marked
  | false =>
    have hconn : (chunking w).tcpConn = w.tcpConn.setLifecycle .close :=
      if_neg (by simp [hchunks])
    refine Or.inr ?_
    rcases h.marked with hc | hc
    · rw [hc, hconn]
    · rw [hc, hconn]
      rfl

/-- No interim response is outstanding. -/
def interimDone (s : Exchange) : Bool := s.writes.all fun w => !w.isInterim

/-- A send has waited for the interim response, or it comes to nothing. -/
def sendWaits (s : Exchange) : Bool :=
  (!s.session.conn.isOpen && !s.session.conn.getKeepAlive) || interimDone s

/-- An answer is begun when no interim response is outstanding, unless it comes to nothing. -/
def waits (s : Exchange) : Exchange.Event → Bool
  | .send _ _ | .sendChunk _ _ | .sendFinalChunk _ _ => sendWaits s
  | .start => interimDone s
  | .read _ | .readError | .finish _ _ | .call _ | .written _ _ _ | .close | .stop _ => true

theorem no_writes {s : Exchange} (h : ∀ w ∈ s.writes, w.isInterim = true)
    (hall : interimDone s = true) : s.writes = [] := by
  refine List.eq_nil_iff_forall_not_mem.mpr fun w hw => ?_
  have hnot := List.all_eq_true.mp hall w hw
  rw [h w hw] at hnot
  cases hnot

theorem responder_of_writer {s : Exchange} {w : HttpResponseWriter} (h : s.writer = some w) :
    s.responder ≠ .nobody := by
  intro hn
  unfold Exchange.writer at h
  rw [hn] at h
  cases h

theorem writer_conn {s : Exchange} {w : HttpResponseWriter} (h : s.writer = some w) :
    w.tcpConn = s.session.conn := by
  unfold Exchange.writer at h
  split at h
  · cases h
    rfl
  · cases h
  · cases h

/-- A handler has sent something: all that a send can do to an exchange. -/
inductive Sent (x : Externals) (s : Exchange) : Exchange → Prop where
  | sent (w : HttpResponseWriter) (hw : s.writer = some w) (r : HttpResponseWriter × Send)
      (hr : SendSpec s.session.conn r)
      (outstanding : HttpResponseWriter → List Bytes → OutstandingWrite) (i j : Nat) :
      Sent x s (s.sent x r outstanding i j)

theorem step_send {s s' : Exchange} {i j : Nat} (h : s.step x (.send i j) = some s') :
    Sent x s s' := by
  unfold Exchange.step at h
  dsimp only at h
  split at h
  · rename_i w hw
    split at h
    · cases h
    · cases h
      exact .sent w hw _ (writer_conn hw ▸ sendMoreData_sends w false) _ i j
  · cases h

theorem step_sendChunk {s s' : Exchange} {i j : Nat} (h : s.step x (.sendChunk i j) = some s') :
    Sent x s s' := by
  obtain ⟨w, hw, rfl⟩ := Option.map_eq_some_iff.mp h
  exact .sent w hw _ (writer_conn hw ▸ sendChunk_sends w) _ i j

theorem step_sendFinalChunk {s s' : Exchange} {i j : Nat}
    (h : s.step x (.sendFinalChunk i j) = some s') :
    Sent x s s' := by
  obtain ⟨w, hw, rfl⟩ := Option.map_eq_some_iff.mp h
  exact .sent w hw _ (writer_conn hw ▸ sendMoreData_sends { w with sendingChunks := true } true) _ i j

/-- A send that has waited is the only write, if it is one. -/
theorem Sent.orderly {s s' : Exchange} (hs : Sent x s s') (h : Orderly s)
    (hwaits : sendWaits s = true) : Orderly s' := by
  obtain ⟨w, hw, r, hr, outstanding, i, j⟩ := hs
  obtain ⟨hphase, hinterim⟩ := h.responder (responder_of_writer hw)
  have hkeep : r.1.tcpConn.getKeepAlive = true → s.session.conn.getKeepAlive = true := by
    intro hk
    rcases hr.marked with hc | hc
    · rw [← hc]
      exact hk
    · rw [hc] at hk
      cases hk
  unfold sendWaits at hwaits
  unfold Exchange.sent
  dsimp only
  cases hsend : r.2 with
  | finish =>
    show Orderly (Exchange.finishConnection x _ i j)
    apply finishConnection_orderly
    · exact h.one
    · intro hk
      simp only [hkeep hk, Bool.not_true, Bool.and_false, Bool.false_or] at hwaits
      exact no_writes hinterim hwaits
  | write buffers =>
    have hopen : s.session.conn.isOpen = true := by
      by_contra hclosed
      rw [hr.lost.mpr (Bool.eq_false_iff.mpr hclosed)] at hsend
      cases hsend
    simp only [hopen, Bool.not_true, Bool.false_and, Bool.false_or] at hwaits
    have hnone := no_writes hinterim hwaits
    exact {
      one := by simp [hnone]
      reading := by intro hn; exact absurd hn hphase
      responder := by intro hn; exact absurd rfl hn
      leaving := by
        intro hleaves
        have hfalse := h.leaving hleaves
        by_contra hk
        simp [hkeep (by simpa using hk)] at hfalse }

theorem Sent.writes_length {s s' : Exchange} (hs : Sent x s s')
    (hopen : s.session.conn.isOpen = true) :
    s'.writes.length = s.writes.length + 1 := by
  obtain ⟨w, _, r, hr, outstanding, i, j⟩ := hs
  unfold Exchange.sent
  dsimp only
  cases hsend : r.2 with
  | finish =>
    rw [hr.lost.mp hsend] at hopen
    cases hopen
  | write buffers => simp

theorem written_orderly {s : Exchange} (h : Orderly s) {k : Nat} {w : OutstandingWrite}
    (hw : s.writes[k]? = some w) (i j : Nat) :
    Orderly ({ s with writes := s.writes.eraseIdx k }.completed x w i j) := by
  have hmem : w ∈ s.writes := List.mem_of_getElem? hw
  have hnone : s.writes.eraseIdx k = [] := by
    have hk : k < s.writes.length := (List.getElem?_eq_some_iff.mp hw).1
    have hlen := List.length_eraseIdx_of_lt hk
    have hone := h.one
    exact List.eq_nil_of_length_eq_zero (by omega)
  rw [hnone]
  -- the write was the only one, so nothing is outstanding now
  have hrest : Orderly { s with writes := [] } := {
    one := by simp
    reading := by simp
    responder := by
      intro hr
      exact ⟨(h.responder hr).1, by simp⟩
    leaving := h.leaving }
  cases w with
  | interim b => exact hrest
  | handshake => exact hrest
  | last b =>
    apply finishConnection_orderly
    · simp
    · intro _
      rfl
  | chunk writer b =>
    have hphase : s.session.phase ≠ .reading := by
      intro hp
      have hinterim := (h.reading hp _ hmem).1
      cases hinterim
    show Orderly { s with responder := .handler writer, writes := [] }
    exact {
      one := by simp
      reading := by simp
      responder := by
        intro _
        exact ⟨hphase, by simp⟩
      leaving := h.leaving }

theorem step_orderly {s s' : Exchange} {e : Exchange.Event} (h : Orderly s)
    (hwaits : waits s e = true)
    (hstep : s.step x e = some s') : Orderly s' := by
  unfold Exchange.step at hstep
  cases e with
  | read data =>
    dsimp only at hstep
    split at hstep
    · rename_i hphase
      cases hstep
      exact consumeBytes_orderly h.one (h.reading hphase.1)
    · cases hstep
  | readError =>
    dsimp only at hstep
    split at hstep
    · rename_i hphase
      cases hstep
      exact {
        one := h.one
        reading := by
          intro hn
          exact absurd hn (handleReadError_phase _)
        responder := by
          intro _
          exact ⟨handleReadError_phase _, fun w hw => (h.reading hphase w hw).1⟩
        leaving := handleReadError_leaves }
    · cases hstep
  | finish i j =>
    have hfinish : ∀ {p : Phase}, s.session.phase = p → leaves p = true →
        Orderly (s.finishConnection x i j) := by
      intro p hp hleaves
      apply finishConnection_orderly h.one
      intro hk
      rw [h.leaving (hp ▸ hleaves)] at hk
      cases hk
    dsimp only at hstep
    split at hstep
    · rename_i hp
      cases hstep
      exact hfinish hp rfl
    · rename_i hp _
      cases hstep
      exact hfinish hp rfl
    · cases hstep
  | call c =>
    obtain ⟨w, hw, rfl⟩ := Option.map_eq_some_iff.mp hstep
    have hresponder : s.responder ≠ .nobody := responder_of_writer hw
    exact ⟨h.one, h.reading, fun _ => h.responder hresponder, h.leaving⟩
  | send i j => exact (step_send hstep).orderly h hwaits
  | sendChunk i j => exact (step_sendChunk hstep).orderly h hwaits
  | sendFinalChunk i j => exact (step_sendFinalChunk hstep).orderly h hwaits
  | start =>
    dsimp only at hstep
    split at hstep
    · rename_i hresponder
      cases hstep
      obtain ⟨hphase, hinterim⟩ := h.responder (by simp [hresponder])
      exact {
        one := by simp [no_writes hinterim hwaits]
        reading := by
          intro hn
          exact absurd hn hphase
        responder := by
          intro hn
          exact absurd rfl hn
        leaving := h.leaving }
    all_goals cases hstep
  | written k i j =>
    obtain ⟨w, hw, rfl⟩ := Option.map_eq_some_iff.mp hstep
    exact written_orderly h hw i j
  | close =>
    cases hstep
    exact ⟨h.one, h.reading, h.responder, h.leaving⟩
  | stop waitUntilFinished =>
    cases hstep
    cases waitUntilFinished with
    | true => exact ⟨h.one, h.reading, h.responder, h.leaving⟩
    | false => exact ⟨h.one, h.reading, h.responder, h.leaving⟩

/-- An answer that does not wait is a second write, if the socket is open. -/
theorem early_overlaps {s s' : Exchange} {e : Exchange.Event} (hopen : s.session.conn.isOpen = true)
    (hearly : waits s e = false) (hstep : s.step x e = some s') : 2 ≤ s'.writes.length := by
  have hpos : interimDone s = false → 1 ≤ s.writes.length := by
    intro h
    unfold interimDone at h
    cases hnil : s.writes with
    | nil => simp [hnil] at h
    | cons w ws => simp
  have hsent : sendWaits s = false → 1 ≤ s.writes.length := by
    intro h
    unfold sendWaits at h
    simp only [hopen, Bool.not_true, Bool.false_and, Bool.false_or] at h
    exact hpos h
  cases e with
  | send i j =>
    have hone := hsent hearly
    have hmore := (step_send hstep).writes_length hopen
    omega
  | sendChunk i j =>
    have hone := hsent hearly
    have hmore := (step_sendChunk hstep).writes_length hopen
    omega
  | sendFinalChunk i j =>
    have hone := hsent hearly
    have hmore := (step_sendFinalChunk hstep).writes_length hopen
    omega
  | start =>
    have hone := hpos hearly
    unfold Exchange.step at hstep
    dsimp only at hstep
    split at hstep
    · cases hstep
      show 2 ≤ (s.writes ++ [OutstandingWrite.handshake]).length
      rw [List.length_append, List.length_singleton]
      omega
    all_goals cases hstep
  | _ => cases hearly

/-! ## Runs -/

/-- **One write at a time**, in every run in which each answer is begun only when the interim
response has been written. -/
theorem one_write (x : Externals) (http : HttpServer) (i j : Nat) (es : List Exchange.Event)
    (s : Exchange)
    (hrun : exec (Exchange.step x) (.accepted x http i j) es = some s)
    (hwaits : Throughout (Exchange.step x) (fun s e => waits s e = true) (.accepted x http i j) es) :
    s.writes.length ≤ 1 := by
  have hstart : Orderly (.accepted x http i j) := {
    one := Nat.zero_le _
    reading := by intro _ w hw; cases hw
    responder := by intro hn; exact absurd rfl hn
    leaving := by intro hn; cases hn }
  have hend : Orderly s := by
    refine exec_throughout Orderly hstart ?_ hrun hwaits
    intro s e s' h hw hs
    exact step_orderly h hw hs
  exact hend.one

/-- A head that asks for the interim response. -/
def expectingHead : Bytes :=
  str "POST /u HTTP/1.1\r\nExpect: 100-continue\r\nContent-Length: 3\r\n\r\n"

/-- The client waits for the interim response before it sends the body. -/
def patientUpload : List Exchange.Event :=
  [.read expectingHead, .written 0 0 0, .read (str "abc"), .call (.write (str "ok")),
    .sendChunk 0 0, .written 0 0 0, .sendFinalChunk 0 0]

theorem one_write_patient :
    ∃ s, exec (Exchange.step plainExternals) (.accepted plainExternals uploadServer 0 0)
        patientUpload = some s ∧ s.writes.length ≤ 1 := by
  obtain ⟨s, hs⟩ := Option.isSome_iff_exists.mp (show (exec (Exchange.step plainExternals)
    (.accepted plainExternals uploadServer 0 0) patientUpload).isSome = true by decide +kernel)
  exact ⟨s, hs, one_write plainExternals uploadServer 0 0 patientUpload s hs (by decide +kernel)⟩

/-- Without a payload handler for the path, the answer is sent as soon as the headers are parsed. -/
theorem two_writes :
    ¬ ∀ es s, exec (Exchange.step plainExternals) (.accepted plainExternals {} 0 0) es = some s →
      s.writes.length ≤ 1 := by
  intro h
  have hlook : (exec (Exchange.step plainExternals) (.accepted plainExternals {} 0 0)
      [.read expectingHead, .send 0 0]).map (·.writes.length) = some 2 := by decide +kernel
  obtain ⟨s, hs, htwo⟩ := Option.map_eq_some_iff.mp hlook
  have hone := h _ s hs
  omega

end Pion.Proof
