import Mathlib.Logic.Relation
import Pion.Proof.AnswerOrder

/-!
# What writes make of a connection

With its writes, a connection has handlers that answer in several pieces, interim responses that nothing
waits for, and completions in any order. What it reads and passes on is what a session does: between two
of its completion handlers it may be marked for closing or closed, and the server may stop listening.
-/

namespace Pion.Proof

open Pion Lib

variable {x : Externals}

/-- What happens to a session and to its server. -/
inductive SessionMove (x : Externals) : HttpServer × Session → HttpServer × Session → Prop where
  | handler {http : HttpServer} {c c' : Session} (h : Session.Step x http c c') : SessionMove x (http, c) (http, c')
  | mark (http : HttpServer) (c : Session) :
      SessionMove x (http, c) (http, { c with conn := c.conn.setLifecycle .close })
  | close (http : HttpServer) (c : Session) :
      SessionMove x (http, c) (http, { c with conn := { c.conn with isOpen := false } })
  | stop (http : HttpServer) (c : Session) : SessionMove x (http, c) ({ http with listening := false }, c)

abbrev SessionMoves (x : Externals) : HttpServer × Session → HttpServer × Session → Prop :=
  Relation.ReflTransGen (SessionMove x)

/-! ## Whoever answers has a request -/

/-- The writes behind which a request is answered on, or its connection finished. -/
def holdsRequest : OutstandingWrite → Bool
  | .chunk _ _ | .last _ => true
  | .interim _ | .handshake => false

theorem holdsRequest_answers {w : OutstandingWrite} (h : holdsRequest w = true) : w.isInterim = false := by
  cases w <;> first | rfl | cases h

/-- A handler that answers has a request, and so has a write that is waited for. -/
def Working (s : Exchange) : Prop :=
  (∃ w, s.responder = .handler w) ∨ (∃ w ∈ s.writes, holdsRequest w = true) →
    ∃ d, s.session.phase = .handling d ∧ leaves (.handling d) = false

theorem not_holding {s : Exchange} (h : answersIn s = []) : ∀ w ∈ s.writes, holdsRequest w = false := by
  intro w hw
  by_contra hholds
  have hanswer : w ∈ answersIn s := by
    refine List.mem_filter.mpr ⟨hw, ?_⟩
    simp [holdsRequest_answers (by simpa using hholds)]
  rw [h] at hanswer
  cases hanswer

/-- Somebody takes over a request as it has been dispatched. -/
theorem takeOver_working {s : Exchange} (h : answersIn s = []) : Working s.takeOver := by
  have hnone : ∀ w ∈ s.takeOver.writes, holdsRequest w = false := not_holding h
  rintro (⟨w, hw⟩ | ⟨w, hw, hholds⟩)
  · unfold Exchange.takeOver at hw ⊢
    dsimp only at hw ⊢
    cases hp : s.session.phase with
    | handling d =>
      rw [hp] at hw
      refine ⟨d, rfl, ?_⟩
      cases d <;> first | rfl | cases hw
    | reading | closed | failed =>
      rw [hp] at hw
      cases hw
  · rw [hnone w hw] at hholds
    cases hholds

theorem working_idle {s : Exchange} (hresponder : s.responder = .nobody)
    (hwrites : ∀ w ∈ s.writes, holdsRequest w = false) : Working s := by
  rintro (⟨w, hw⟩ | ⟨w, hw, hholds⟩)
  · rw [hresponder] at hw
    cases hw
  · rw [hwrites w hw] at hholds
    cases hholds

theorem consumeBytes_working {s : Exchange} {c : Session} (h : answersIn s = [])
    (hc : c.handled = s.session.handled) : Working (s.consumeBytes x c) := by
  have hanswers : answersIn (s.consumeBytes x c) = [] := (consumeBytes_next s hc).answers.trans h
  exact takeOver_working hanswers

theorem finishConnection_working {s : Exchange} (h : answersIn s = []) (i j : Nat) :
    Working (s.finishConnection x i j) := by
  unfold Exchange.finishConnection
  split
  · unfold Exchange.handleConnection Exchange.receive
    split
    · exact consumeBytes_working h rfl
    · exact working_idle rfl (not_holding h)
  · exact working_idle rfl (not_holding h)

/-! ## Steps -/

/-- What a step does: the session moves, and whoever answers has a request. -/
def SessionGoes (x : Externals) (s s' : Exchange) : Prop :=
  SessionMoves x (s.http, s.session) (s'.http, s'.session) ∧ Working s'

theorem finishConnection_moves {s : Exchange} {d : Dispatch} (hd : s.session.phase = .handling d)
    (h : answersIn s = []) (i j : Nat) : SessionGoes x s (s.finishConnection x i j) := by
  have hhttp : (s.finishConnection x i j).http = s.http := by
    unfold Exchange.finishConnection Exchange.handleConnection Exchange.receive
    split
    · split
      · rfl
      · rfl
    · rfl
  refine ⟨?_, finishConnection_working h i j⟩
  rw [hhttp, finishConnection_session]
  exact .single (.handler (.finish _ d i j hd))

theorem sent_moves {s : Exchange} {log : List (Nat × OutstandingWrite)} (h : Working s) (ha : Answering s log)
    {w : HttpResponseWriter} (hw : s.writer = some w) {r : HttpResponseWriter × Send}
    (hr : SendSpec s.session.conn r) (outstanding : HttpResponseWriter → List Bytes → OutstandingWrite) (i j : Nat) :
    SessionGoes x s (s.sent x r outstanding i j) := by
  have hresponder := responder_of_writer hw
  have hanswers := (ha.responder hresponder).1
  obtain ⟨v, hv⟩ : ∃ v, s.responder = .handler v := by
    unfold Exchange.writer at hw
    cases hresp : s.responder with
    | handler v => exact ⟨v, rfl⟩
    | nobody | websocket =>
      rw [hresp] at hw
      cases hw
  obtain ⟨d, hd, hstays⟩ := h (.inl ⟨v, hv⟩)
  generalize hmarked : ({ s with
    session := { s.session with conn := r.1.tcpConn }
    responder := .nobody } : Exchange) = marked
  have hmoves : SessionMoves x (s.http, s.session) (marked.http, marked.session) := by
    rw [← hmarked]
    rcases hr.marked with hc | hc
    · rw [hc]
    · rw [hc]
      exact .single (.mark s.http s.session)
  have hphase : marked.session.phase = .handling d := by
    rw [← hmarked]
    exact hd
  unfold Exchange.sent
  dsimp only
  rw [hmarked]
  cases r.2 with
  | finish =>
    have hnone : answersIn marked = [] := by
      rw [← hmarked]
      exact hanswers
    obtain ⟨hmore, hworking⟩ := finishConnection_moves (x := x) hphase hnone i j
    exact ⟨hmoves.trans hmore, hworking⟩
  | write buffers =>
    subst hmarked
    exact ⟨hmoves, fun _ => ⟨d, hphase, hstays⟩⟩

/-- The connection of a request that nobody answers is closed. -/
theorem finish_moves {s : Exchange} {log : List (Nat × OutstandingWrite)} {d : Dispatch} (h : Working s)
    (ha : Answering s log) (hd : s.session.phase = .handling d) (hl : leaves (.handling d) = true) (i j : Nat) :
    SessionGoes x s (s.finishConnection x i j) := by
  have hclosed : s.finishConnection x i j =
      { s with session := { s.session with phase := .closed }, responder := .nobody } := by
    unfold Exchange.finishConnection
    rw [if_neg (by simp [ha.leaving (hd ▸ hl)])]
  have hsession : (s.finishConnection x i j).session = s.session.finishConnection x s.http i j :=
    finishConnection_session s i j
  refine ⟨?_, ?_⟩
  · rw [hsession, hclosed]
    exact .single (.handler (.finish _ d i j hd))
  · rw [hclosed]
    refine working_idle rfl fun w hw => ?_
    by_contra hholds
    obtain ⟨d', hd', hstays⟩ := h (.inr ⟨w, hw, by simpa using hholds⟩)
    obtain rfl := Phase.handling.inj (hd.symm.trans hd')
    rw [hl] at hstays
    cases hstays

theorem written_moves {s : Exchange} {log : List (Nat × OutstandingWrite)} (h : Working s) (ha : Answering s log)
    {k : Nat} {w : OutstandingWrite} (hw : s.writes[k]? = some w) (i j : Nat) :
    SessionGoes x s ({ s with writes := s.writes.eraseIdx k }.completed x w i j) := by
  have hmem := List.mem_of_getElem? hw
  have hrest : Working { s with writes := s.writes.eraseIdx k } := by
    rintro (hresponder | ⟨v, hv, hholds⟩)
    · exact h (.inl hresponder)
    · exact h (.inr ⟨v, List.mem_of_mem_eraseIdx hv, hholds⟩)
  cases w with
  | interim b => exact ⟨.refl, hrest⟩
  | handshake => exact ⟨.refl, hrest⟩
  | chunk writer b => exact ⟨.refl, fun _ => h (.inr ⟨_, hmem, rfl⟩)⟩
  | last b =>
    obtain ⟨d, hd, _⟩ := h (.inr ⟨_, hmem, rfl⟩)
    have hnone : answersIn { s with writes := s.writes.eraseIdx k } = [] := answersIn_eraseIdx ha.few hw
    exact finishConnection_moves (s := { s with writes := s.writes.eraseIdx k }) hd hnone i j

theorem step_moves {s s' : Exchange} {e : Exchange.Event} {log : List (Nat × OutstandingWrite)} (h : Working s)
    (ha : Answering s log) (hstep : s.step x e = some s') : SessionGoes x s s' := by
  unfold Exchange.step at hstep
  cases e with
  | read data =>
    dsimp only at hstep
    split at hstep
    · rename_i hread
      obtain rfl := Option.some.inj hstep
      refine ⟨.single (.handler (.read _ data hread.1 hread.2.1 hread.2.2)), ?_⟩
      exact consumeBytes_working (ha.reading hread.1) rfl
    · cases hstep
  | readError =>
    dsimp only at hstep
    split at hstep
    · rename_i hread
      obtain rfl := Option.some.inj hstep
      refine ⟨.single (.handler (.readError _ hread)), takeOver_working ?_⟩
      exact ha.reading hread
    · cases hstep
  | finish i j =>
    dsimp only at hstep
    split at hstep
    · rename_i hp
      obtain rfl := Option.some.inj hstep
      exact finish_moves h ha hp rfl i j
    · rename_i hp _
      obtain rfl := Option.some.inj hstep
      exact finish_moves h ha hp rfl i j
    · cases hstep
  | call c =>
    obtain ⟨w, hw, rfl⟩ := Option.map_eq_some_iff.mp hstep
    refine ⟨.refl, fun _ => h ?_⟩
    unfold Exchange.writer at hw
    split at hw
    · rename_i v hv
      exact .inl ⟨v, hv⟩
    all_goals cases hw
  | send i j =>
    dsimp only at hstep
    split at hstep
    · rename_i w hw
      split at hstep
      · cases hstep
      · obtain rfl := Option.some.inj hstep
        exact sent_moves h ha hw (writer_conn hw ▸ sendMoreData_sends w false) _ i j
    · cases hstep
  | sendChunk i j =>
    obtain ⟨w, hw, rfl⟩ := Option.map_eq_some_iff.mp hstep
    exact sent_moves h ha hw (writer_conn hw ▸ sendChunk_sends w) _ i j
  | sendFinalChunk i j =>
    obtain ⟨w, hw, rfl⟩ := Option.map_eq_some_iff.mp hstep
    exact sent_moves h ha hw (writer_conn hw ▸ sendMoreData_sends { w with sendingChunks := true } true) _ i j
  | start =>
    dsimp only at hstep
    split at hstep
    · obtain rfl := Option.some.inj hstep
      refine ⟨.refl, ?_⟩
      rintro (⟨w, hw⟩ | ⟨w, hw, hholds⟩)
      · cases hw
      · rcases List.mem_append.mp hw with hold | hnew
        · exact h (.inr ⟨w, hold, hholds⟩)
        · rw [List.mem_singleton.mp hnew] at hholds
          cases hholds
    all_goals cases hstep
  | written k i j =>
    obtain ⟨w, hw, rfl⟩ := Option.map_eq_some_iff.mp hstep
    exact written_moves h ha hw i j
  | close =>
    obtain rfl := Option.some.inj hstep
    exact ⟨.single (.close _ _), h⟩
  | stop waitUntilFinished =>
    obtain rfl := Option.some.inj hstep
    cases waitUntilFinished with
    | true => exact ⟨.single (.stop _ _), h⟩
    | false =>
      exact ⟨.tail (.single (.stop _ _)) (.close _ _), h⟩

/-- **Whatever is written, a connection reads as a session does**: in every run of its reads, its writes
and their completions, what becomes of its session is what the completion handlers of a session do, with
closings and the end of listening between them. -/
theorem exchange_refines (x : Externals) (http : HttpServer) (i j : Nat) (es : List Exchange.Event) (s : Exchange)
    (hrun : exec (Exchange.step x) (.accepted x http i j) es = some s) :
    SessionMoves x (http, .accepted x http i j) (s.http, s.session) := by
  have hend : (∃ log, Answering s log) ∧ Working s ∧
      SessionMoves x (http, .accepted x http i j) (s.http, s.session) := by
    refine exec_invariant (fun _ t => (∃ log, Answering t log) ∧ Working t ∧
      SessionMoves x (http, .accepted x http i j) (t.http, t.session))
      ⟨⟨[], answering_accepted x http i j⟩, working_idle rfl fun w hw => (by cases hw), .refl⟩ ?_ hrun
    rintro _ t e t' _ ⟨⟨log, ha⟩, hworking, hsofar⟩ hstep
    obtain ⟨hmoves, hworking'⟩ := step_moves hworking ha hstep
    exact ⟨⟨_, step_answering ha hstep⟩, hworking', hsofar.trans hmoves⟩
  exact hend.2.2

theorem exchange_refines_twice : ∃ s,
    exec (Exchange.step plainExternals) (.accepted plainExternals {} 0 0) answeredTwice = some s ∧
      SessionMoves plainExternals ({}, .accepted plainExternals {} 0 0) (s.http, s.session) := by
  obtain ⟨s, hs⟩ := Option.isSome_iff_exists.mp (show (exec (Exchange.step plainExternals)
    (.accepted plainExternals {} 0 0) answeredTwice).isSome = true by decide +kernel)
  exact ⟨s, hs, exchange_refines plainExternals {} 0 0 answeredTwice s hs⟩

end Pion.Proof
