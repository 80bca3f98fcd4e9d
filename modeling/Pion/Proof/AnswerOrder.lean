import Pion.Proof.Writes

/-!
# The order of the answers

The requests of a connection are answered one after another: what is written for one has been started,
and has completed, before anything is written for the next. An interim response is no answer.
-/

namespace Pion.Proof

open Pion Lib

variable {x : Externals}

/-! ## Answers -/

def isChunk : OutstandingWrite → Bool
  | .chunk _ _ => true
  | .interim _ | .last _ | .handshake => false

/-- The writes of answers that are outstanding. -/
def answersIn (s : Exchange) : List OutstandingWrite := s.writes.filter fun w => !w.isInterim

/-- How many requests have been passed to `handle_request`. -/
def requestCount (s : Exchange) : Nat := s.session.handled.length

/-- The writes of answers that an event starts. -/
def startedAnswers (x : Externals) (s : Exchange) (e : Exchange.Event) : List OutstandingWrite :=
  match s.step x e with
  | some s' => (answersIn s').drop (answersIn s).length
  | none => []

/-- The machine of the exchange, with all answers that have been started, each with the number of the
request that it is for. -/
def stepAnswering (x : Externals) : Exchange × List (Nat × OutstandingWrite) → Exchange.Event →
    Option (Exchange × List (Nat × OutstandingWrite)) :=
  tracked (Exchange.step x) fun s e log => log ++ (startedAnswers x s e).map fun w => (requestCount s, w)

/-- The answer `a` may be started in front of `b`. -/
def InFront (a b : Nat × OutstandingWrite) : Prop := a.1 < b.1 ∨ (a.1 = b.1 ∧ isChunk a.2 = true)

/-! ## The invariant -/

structure Answering (s : Exchange) (log : List (Nat × OutstandingWrite)) : Prop where
  few : (answersIn s).length ≤ 1
  reading : s.session.phase = .reading → answersIn s = []
  responder : s.responder ≠ .nobody → answersIn s = [] ∧ s.session.phase ≠ .reading
  /-- What has been written for a request whose answer goes on are chunks. -/
  current : (s.responder ≠ .nobody ∨ ∃ w ∈ answersIn s, isChunk w = true) →
    0 < requestCount s ∧ ∀ a ∈ log, a.1 = requestCount s → isChunk a.2 = true
  count : ∀ a ∈ log, 0 < a.1 ∧ a.1 ≤ requestCount s
  ordered : log.Pairwise InFront
  leaving : leaves s.session.phase = true → s.session.conn.getKeepAlive = false

/-- The connection goes on to its next request, or closes. -/
structure GoesToNext (s s' : Exchange) : Prop where
  answers : answersIn s' = answersIn s
  count : requestCount s ≤ requestCount s'
  responder : s'.responder ≠ .nobody → requestCount s < requestCount s' ∧ s'.session.phase ≠ .reading
  leaving : leaves s'.session.phase = true → s'.session.conn.getKeepAlive = false

theorem GoesToNext.answering {s s' : Exchange} {log : List (Nat × OutstandingWrite)} (h : GoesToNext s s')
    (hnone : answersIn s = []) (hcount : ∀ a ∈ log, 0 < a.1 ∧ a.1 ≤ requestCount s)
    (hordered : log.Pairwise InFront) : Answering s' log := by
  have hnone' : answersIn s' = [] := h.answers.trans hnone
  refine ⟨by simp [hnone'], fun _ => hnone', fun hr => ⟨hnone', (h.responder hr).2⟩, ?_, ?_, hordered,
    h.leaving⟩
  · rintro (hr | ⟨w, hw, _⟩)
    · -- the request is a new one
      have hlt := (h.responder hr).1
      refine ⟨by omega, fun a ha heq => ?_⟩
      have hle := (hcount a ha).2
      omega
    · rw [hnone'] at hw
      cases hw
  · intro a ha
    have hle := h.count
    have hold := hcount a ha
    omega

theorem answersIn_append (s : Exchange) {ws : List OutstandingWrite} (h : ∀ w ∈ ws, w.isInterim = true) :
    (s.writes ++ ws).filter (fun w => !w.isInterim) = answersIn s := by
  have hnone : ws.filter (fun w => !w.isInterim) = [] := by
    refine List.filter_eq_nil_iff.mpr fun w hw => ?_
    simp [h w hw]
  rw [List.filter_append, hnone, List.append_nil]
  rfl

/-! ## The reader -/

theorem finishedReading_handled (server : HttpServer) (c : Session) (ec : ReadError) :
    (c.finishedReading server ec).handled.length = c.handled.length + 1 := by
  unfold Session.finishedReading
  rw [List.length_append]
  rfl

/-- A request has been passed on, or the reader has no result yet. -/
theorem afterParse_handled (server : HttpServer) (c : Session) (r : ParseResult) :
    (c.afterParse server r).handled.length = c.handled.length + 1 ∨
      ((c.afterParse server r).handled = c.handled ∧ ∀ d, (c.afterParse server r).phase ≠ .handling d) := by
  unfold Session.afterParse
  dsimp only
  split
  · exact .inr ⟨rfl, by simp⟩
  · exact .inl (finishedReading_handled server _ _)
  · exact .inl (finishedReading_handled server _ _)
  · exact .inr ⟨rfl, by simp⟩

theorem handleReadError_handled (server : HttpServer) (c : Session) :
    (c.handleReadError x server).handled.length = c.handled.length + 1 ∨
      ((c.handleReadError x server).handled = c.handled ∧
        ∀ d, (c.handleReadError x server).phase ≠ .handling d) := by
  unfold Session.handleReadError
  dsimp only
  split
  · exact .inr ⟨rfl, by simp⟩
  · exact .inl (finishedReading_handled server _ _)
  · exact .inl (finishedReading_handled server _ _)

/-- Somebody takes over only what has been passed to `handle_request`. -/
theorem takeOver_handling {s : Exchange} (h : s.takeOver.responder ≠ .nobody) :
    ∃ d, s.session.phase = .handling d := by
  cases hp : s.session.phase with
  | handling d => exact ⟨d, rfl⟩
  | reading | closed | failed =>
    refine absurd ?_ h
    unfold Exchange.takeOver
    dsimp only
    rw [hp]

theorem consumeBytes_next (s : Exchange) {c : Session} (hc : c.handled = s.session.handled) :
    GoesToNext s (s.consumeBytes x c) := by
  have hparse := (parse_interim x s.http.handleRequestAfterHeadersParsed c.reader.parser c.reader.request none
    c.unread).once
  have hhandled := afterParse_handled s.http c
    (parse x s.http.handleRequestAfterHeadersParsed c.reader.parser c.reader.request none c.unread)
  rw [hc] at hhandled
  refine ⟨answersIn_append s ?_, ?_, fun hr => ⟨?_, takeOver_responder hr⟩, afterParse_leaves⟩
  · intro w hw
    rcases hparse with hnone | hone
    · rw [hnone] at hw
      cases hw
    · rw [hone] at hw
      rw [List.mem_singleton.mp hw]
      rfl
  · rcases hhandled with hmore | ⟨hsame, _⟩
    · exact (Nat.le_succ _).trans (le_of_eq hmore.symm)
    · exact le_of_eq (congrArg List.length hsame.symm)
  · obtain ⟨d, hd⟩ := takeOver_handling hr
    rcases hhandled with hmore | ⟨_, hnot⟩
    · exact lt_of_lt_of_eq (Nat.lt_succ_self _) hmore.symm
    · exact absurd hd (hnot d)

theorem handleReadError_next (s : Exchange) : GoesToNext s (s.handleReadError x) := by
  have hhandled := handleReadError_handled (x := x) s.http s.session
  refine ⟨rfl, ?_, fun hr => ⟨?_, takeOver_responder hr⟩, handleReadError_leaves⟩
  · rcases hhandled with hmore | ⟨hsame, _⟩
    · exact (Nat.le_succ _).trans (le_of_eq hmore.symm)
    · exact le_of_eq (congrArg List.length hsame.symm)
  · obtain ⟨d, hd⟩ := takeOver_handling hr
    rcases hhandled with hmore | ⟨_, hnot⟩
    · exact lt_of_lt_of_eq (Nat.lt_succ_self _) hmore.symm
    · exact absurd hd (hnot d)

theorem finishConnection_next (s : Exchange) (i j : Nat) : GoesToNext s (s.finishConnection x i j) := by
  unfold Exchange.finishConnection
  split
  · unfold Exchange.handleConnection Exchange.receive
    split
    · exact consumeBytes_next s rfl
    · exact ⟨rfl, Nat.le_refl _, fun hr => absurd rfl hr, fun hl => by cases hl⟩
  · exact ⟨rfl, Nat.le_refl _, fun hr => absurd rfl hr, fun hl => by cases hl⟩

/-! ## The answers -/

/-- Whoever has the request starts a write for it. -/
theorem Answering.begin {s : Exchange} {log : List (Nat × OutstandingWrite)} (h : Answering s log)
    (s' : Exchange) {w : OutstandingWrite} (hresponder : s.responder ≠ .nobody) (hw : w.isInterim = false)
    (hwrites : s'.writes = s.writes ++ [w]) (hhandled : s'.session.handled = s.session.handled)
    (hphase : s'.session.phase = s.session.phase) (hnobody : s'.responder = .nobody)
    (hkeep : s'.session.conn.getKeepAlive = true → s.session.conn.getKeepAlive = true) :
    answersIn s' = answersIn s ++ [w] ∧ Answering s' (log ++ [(requestCount s, w)]) := by
  obtain ⟨hnone, hreading⟩ := h.responder hresponder
  obtain ⟨hpos, hchunks⟩ := h.current (.inl hresponder)
  have hcount : requestCount s' = requestCount s := congrArg List.length hhandled
  have hone : answersIn s' = [w] := by
    unfold answersIn at hnone ⊢
    rw [hwrites, List.filter_append, hnone]
    simp [hw]
  refine ⟨by rw [hone, hnone, List.nil_append], ?_, ?_, ?_, ?_, ?_, ?_, ?_⟩
  · simp [hone]
  · rw [hphase]
    exact fun hr => absurd hr hreading
  · exact fun hr => absurd hnobody hr
  · rintro (hr | ⟨v, hv, hchunk⟩)
    · exact absurd hnobody hr
    · rw [hone, List.mem_singleton] at hv
      subst hv
      rw [hcount]
      refine ⟨hpos, fun a ha heq => ?_⟩
      rcases List.mem_append.mp ha with hold | hnew
      · exact hchunks a hold heq
      · rw [List.mem_singleton.mp hnew]
        exact hchunk
  · intro a ha
    rw [hcount]
    rcases List.mem_append.mp ha with hold | hnew
    · exact h.count a hold
    · rw [List.mem_singleton.mp hnew]
      exact ⟨hpos, Nat.le_refl _⟩
  · refine List.pairwise_append.mpr ⟨h.ordered, List.pairwise_singleton _ _, fun a ha b hb => ?_⟩
    rw [List.mem_singleton.mp hb]
    by_cases heq : a.1 = requestCount s
    · exact .inr ⟨heq, hchunks a ha heq⟩
    · have hle := (h.count a ha).2
      exact .inl (show a.1 < requestCount s by omega)
  · rw [hphase]
    intro hl
    have hfalse := h.leaving hl
    by_contra hk
    rw [hkeep (by simpa using hk)] at hfalse
    cases hfalse

/-- What `log` becomes in a step. -/
def answered (s s' : Exchange) (log : List (Nat × OutstandingWrite)) : List (Nat × OutstandingWrite) :=
  log ++ ((answersIn s').drop (answersIn s).length).map fun w => (requestCount s, w)

theorem answered_same {s s' : Exchange} (h : (answersIn s').length ≤ (answersIn s).length)
    (log : List (Nat × OutstandingWrite)) : answered s s' log = log := by
  unfold answered
  rw [List.drop_eq_nil_of_le h, List.map_nil, List.append_nil]

theorem answered_one {s s' : Exchange} {w : OutstandingWrite} (h : answersIn s' = answersIn s ++ [w])
    (log : List (Nat × OutstandingWrite)) : answered s s' log = log ++ [(requestCount s, w)] := by
  unfold answered
  rw [h, List.drop_left]
  rfl

theorem sent_answering {s : Exchange} {log : List (Nat × OutstandingWrite)} (h : Answering s log)
    {w : HttpResponseWriter} (hw : s.writer = some w) {r : HttpResponseWriter × Send}
    (hr : SendSpec s.session.conn r) {outstanding : HttpResponseWriter → List Bytes → OutstandingWrite}
    (hnot : ∀ v b, (outstanding v b).isInterim = false) (i j : Nat) :
    Answering (s.sent x r outstanding i j) (answered s (s.sent x r outstanding i j) log) := by
  have hresponder := responder_of_writer hw
  unfold Exchange.sent
  dsimp only
  cases hsend : r.2 with
  | finish =>
    -- the connection is lost, and nothing is written
    have hnone := (h.responder hresponder).1
    generalize hlost : ({ s with
      session := { s.session with conn := r.1.tcpConn }
      responder := .nobody } : Exchange) = lost
    have hanswers : answersIn lost = answersIn s := by rw [← hlost]; rfl
    have hcount : requestCount lost = requestCount s := by rw [← hlost]; rfl
    have hnext := finishConnection_next (x := x) lost i j
    show Answering (lost.finishConnection x i j) (answered s (lost.finishConnection x i j) log)
    rw [answered_same (le_of_eq (congrArg List.length (hnext.answers.trans hanswers)))]
    exact hnext.answering (hanswers.trans hnone) (hcount ▸ h.count) h.ordered
  | write buffers =>
    dsimp only
    have hbegin := h.begin ({ s with
        session := { s.session with conn := r.1.tcpConn }
        responder := .nobody
        writes := s.writes ++ [outstanding r.1 buffers] })
      hresponder (hnot r.1 buffers) rfl rfl rfl rfl (fun hk => ?_)
    · rw [answered_one hbegin.1]
      exact hbegin.2
    · rcases hr.marked with hc | hc
      · rw [← hc]
        exact hk
      · rw [hc] at hk
        cases hk

/-- Nothing is left of the answers when the one write completes, and an interim response is none. -/
theorem answersIn_eraseIdx {s : Exchange} {k : Nat} {w : OutstandingWrite} (hfew : (answersIn s).length ≤ 1)
    (hw : s.writes[k]? = some w) :
    (s.writes.eraseIdx k).filter (fun v => !v.isInterim) = if w.isInterim then answersIn s else [] := by
  obtain ⟨hk, hget⟩ := List.getElem?_eq_some_iff.mp hw
  have hsplit : s.writes = s.writes.take k ++ w :: s.writes.drop (k + 1) := by
    rw [← hget, List.getElem_cons_drop hk, List.take_append_drop]
  have hanswers : answersIn s = (s.writes.take k).filter (fun v => !v.isInterim) ++
      (w :: s.writes.drop (k + 1)).filter (fun v => !v.isInterim) := by
    rw [← List.filter_append, ← hsplit]
    rfl
  rw [List.eraseIdx_eq_take_drop_succ, List.filter_append]
  by_cases hi : w.isInterim = true
  · rw [if_pos hi, hanswers, List.filter_cons_of_neg (by simp [hi])]
  · rw [if_neg hi]
    rw [hanswers, List.filter_cons_of_pos (by simp [hi]), List.length_append, List.length_cons] at hfew
    refine List.eq_nil_of_length_eq_zero ?_
    rw [List.length_append]
    omega

theorem written_answering {s : Exchange} {log : List (Nat × OutstandingWrite)} (h : Answering s log) {k : Nat}
    {w : OutstandingWrite} (hw : s.writes[k]? = some w) (i j : Nat) :
    Answering ({ s with writes := s.writes.eraseIdx k }.completed x w i j) log := by
  have herase := answersIn_eraseIdx h.few hw
  have hmem : w ∈ s.writes := List.mem_of_getElem? hw
  cases w with
  | interim b =>
    have hsame : answersIn { s with writes := s.writes.eraseIdx k } = answersIn s := herase
    refine ⟨hsame ▸ h.few, fun hr => hsame.trans (h.reading hr), fun hr => ⟨hsame.trans (h.responder hr).1,
      (h.responder hr).2⟩, ?_, h.count, h.ordered, h.leaving⟩
    show (_ ∨ ∃ w ∈ answersIn { s with writes := s.writes.eraseIdx k }, _) → _
    rw [hsame]
    exact h.current
  | chunk writer b =>
    have hnone : answersIn { s with responder := .handler writer, writes := s.writes.eraseIdx k } = [] := herase
    have hanswer : OutstandingWrite.chunk writer b ∈ answersIn s := List.mem_filter.mpr ⟨hmem, rfl⟩
    have hreading : s.session.phase ≠ .reading := by
      intro hr
      rw [h.reading hr] at hanswer
      cases hanswer
    refine ⟨?_, fun hr => absurd hr hreading, fun _ => ⟨hnone, hreading⟩, fun _ => ?_, h.count, h.ordered,
      h.leaving⟩
    · show (answersIn { s with responder := .handler writer, writes := s.writes.eraseIdx k }).length ≤ 1
      simp [hnone]
    · exact h.current (.inr ⟨_, hanswer, rfl⟩)
  | last b =>
    exact (finishConnection_next _ i j).answering (show answersIn { s with writes := s.writes.eraseIdx k } = [] from
      herase) h.count h.ordered
  | handshake =>
    have hnone : answersIn { s with writes := s.writes.eraseIdx k } = [] := herase
    have hanswer : OutstandingWrite.handshake ∈ answersIn s := List.mem_filter.mpr ⟨hmem, rfl⟩
    refine ⟨?_, fun _ => hnone, fun hr => ⟨hnone, (h.responder hr).2⟩, ?_, h.count, h.ordered, h.leaving⟩
    · show (answersIn { s with writes := s.writes.eraseIdx k }).length ≤ 1
      simp [hnone]
    · rintro (hr | ⟨v, hv, _⟩)
      · exact h.current (.inl hr)
      · cases hnone ▸ (show v ∈ answersIn { s with writes := s.writes.eraseIdx k } from hv)

theorem written_answers {s : Exchange} (hfew : (answersIn s).length ≤ 1) {k : Nat} {w : OutstandingWrite}
    (hw : s.writes[k]? = some w) (i j : Nat) :
    (answersIn ({ s with writes := s.writes.eraseIdx k }.completed x w i j)).length ≤ (answersIn s).length := by
  have herase := answersIn_eraseIdx hfew hw
  have hle : (answersIn { s with writes := s.writes.eraseIdx k }).length ≤ (answersIn s).length := by
    show ((s.writes.eraseIdx k).filter _).length ≤ _
    rw [herase]
    split
    · exact Nat.le_refl _
    · exact Nat.zero_le _
  cases w with
  | interim b => exact hle
  | chunk writer b => exact hle
  | last b => exact le_of_eq_of_le (congrArg List.length (finishConnection_next _ i j).answers) hle
  | handshake => exact hle

/-- The connection of a request that nobody answers is closed. -/
theorem finish_answering {s : Exchange} {log : List (Nat × OutstandingWrite)} (h : Answering s log)
    (hl : leaves s.session.phase = true) (i j : Nat) : Answering (s.finishConnection x i j) log := by
  have hkeep := h.leaving hl
  have hclosed : s.finishConnection x i j =
      { s with session := { s.session with phase := .closed }, responder := .nobody } := by
    unfold Exchange.finishConnection
    rw [if_neg (by simp [hkeep])]
  rw [hclosed]
  refine ⟨h.few, fun hr => (by cases hr), fun hr => absurd rfl hr, ?_, h.count, h.ordered,
    fun hr => (by cases hr)⟩
  rintro (hr | hchunk)
  · exact absurd rfl hr
  · exact h.current (.inr hchunk)

/-! ## Steps -/

theorem step_answering {s s' : Exchange} {e : Exchange.Event} {log : List (Nat × OutstandingWrite)}
    (h : Answering s log) (hstep : s.step x e = some s') : Answering s' (answered s s' log) := by
  have hsame : ∀ {t : Exchange}, answersIn t = answersIn s → Answering t log →
      Answering t (answered s t log) := by
    intro t hanswers ht
    rw [answered_same (le_of_eq (congrArg List.length hanswers))]
    exact ht
  unfold Exchange.step at hstep
  cases e with
  | read data =>
    dsimp only at hstep
    split at hstep
    · rename_i hphase
      cases hstep
      have hnext : GoesToNext s (s.readCompletes x data) := consumeBytes_next s rfl
      exact hsame hnext.answers (hnext.answering (h.reading hphase.1) h.count h.ordered)
    · cases hstep
  | readError =>
    dsimp only at hstep
    split at hstep
    · rename_i hphase
      cases hstep
      have hnext := handleReadError_next (x := x) s
      exact hsame hnext.answers (hnext.answering (h.reading hphase) h.count h.ordered)
    · cases hstep
  | finish i j =>
    dsimp only at hstep
    split at hstep
    · rename_i hp
      cases hstep
      exact hsame (finishConnection_next s i j).answers (finish_answering h (by rw [hp]; rfl) i j)
    · rename_i hp _
      cases hstep
      exact hsame (finishConnection_next s i j).answers (finish_answering h (by rw [hp]; rfl) i j)
    · cases hstep
  | call c =>
    obtain ⟨w, hw, rfl⟩ := Option.map_eq_some_iff.mp hstep
    have hresponder := responder_of_writer hw
    exact hsame rfl ⟨h.few, h.reading, fun _ => h.responder hresponder, fun _ => h.current (.inl hresponder),
      h.count, h.ordered, h.leaving⟩
  | send i j =>
    dsimp only at hstep
    split at hstep
    · rename_i w hw
      split at hstep
      · cases hstep
      · cases hstep
        exact sent_answering h hw (writer_conn hw ▸ sendMoreData_sends w false) (fun _ _ => rfl) i j
    · cases hstep
  | sendChunk i j =>
    obtain ⟨w, hw, rfl⟩ := Option.map_eq_some_iff.mp hstep
    exact sent_answering h hw (writer_conn hw ▸ sendChunk_sends w) (fun _ _ => rfl) i j
  | sendFinalChunk i j =>
    obtain ⟨w, hw, rfl⟩ := Option.map_eq_some_iff.mp hstep
    exact sent_answering h hw (writer_conn hw ▸ sendMoreData_sends { w with sendingChunks := true } true)
      (fun _ _ => rfl) i j
  | start =>
    dsimp only at hstep
    split at hstep
    · rename_i hresponder
      cases hstep
      have hbegin := h.begin ({ s with responder := .nobody, writes := s.writes ++ [.handshake] })
        (w := .handshake) (by simp [hresponder]) rfl rfl rfl rfl rfl id
      rw [answered_one hbegin.1]
      exact hbegin.2
    all_goals cases hstep
  | written k i j =>
    obtain ⟨w, hw, rfl⟩ := Option.map_eq_some_iff.mp hstep
    rw [answered_same (written_answers h.few hw i j)]
    exact written_answering h hw i j
  | close =>
    cases hstep
    exact hsame rfl ⟨h.few, h.reading, h.responder, h.current, h.count, h.ordered, h.leaving⟩
  | stop waitUntilFinished =>
    cases hstep
    refine hsame rfl ?_
    cases waitUntilFinished with
    | true => exact ⟨h.few, h.reading, h.responder, h.current, h.count, h.ordered, h.leaving⟩
    | false => exact ⟨h.few, h.reading, h.responder, h.current, h.count, h.ordered, h.leaving⟩

/-! ## Runs -/

theorem answering_accepted (x : Externals) (http : HttpServer) (i j : Nat) : Answering (.accepted x http i j) [] where
  few := Nat.zero_le _
  reading := by intro _; rfl
  responder := by intro hn; exact absurd rfl hn
  current := by
    rintro (hn | ⟨w, hw, _⟩)
    · exact absurd rfl hn
    · cases hw
  count := by intro a ha; cases ha
  ordered := List.Pairwise.nil
  leaving := by intro hn; cases hn

/-- **The answers of a connection are in order**, in every run: no answer is started while one is
outstanding, each is for a request that has been passed to `handle_request`, none follows an answer to
a later request, and none follows the last write for its own. -/
theorem answers_in_order (x : Externals) (http : HttpServer) (i j : Nat) (es : List Exchange.Event) (s : Exchange)
    (log : List (Nat × OutstandingWrite))
    (hrun : exec (stepAnswering x) (.accepted x http i j, []) es = some (s, log)) :
    (answersIn s).length ≤ 1 ∧ (∀ a ∈ log, 0 < a.1 ∧ a.1 ≤ requestCount s) ∧ log.Pairwise InFront := by
  have hend : Answering s log := by
    refine exec_invariant (fun _ t => Answering t.1 t.2) (answering_accepted x http i j) ?_ hrun
    rintro _ ⟨t, l⟩ e ⟨t', l'⟩ _ h hs
    obtain ⟨hstep, hnote⟩ := tracked_eq_some.mp hs
    dsimp only at hstep hnote h ⊢
    rw [← hnote]
    unfold startedAnswers
    rw [hstep]
    exact step_answering h hstep
  exact ⟨hend.few, hend.count, hend.ordered⟩

/-- Two requests in one packet, answered one after the other. -/
def answeredTwice : List Exchange.Event :=
  [.read (str "GET /a HTTP/1.1\r\n\r\nGET /b HTTP/1.1\r\n\r\n"), .send 0 0, .written 0 0 0, .sendChunk 0 0,
    .written 0 0 0, .sendFinalChunk 0 0]

theorem answers_in_order_twice :
    ∃ s log, exec (stepAnswering plainExternals) (.accepted plainExternals {} 0 0, []) answeredTwice =
        some (s, log) ∧
      log.map (·.1) = [1, 2, 2] ∧
      (answersIn s).length ≤ 1 ∧ (∀ a ∈ log, 0 < a.1 ∧ a.1 ≤ requestCount s) ∧ log.Pairwise InFront := by
  obtain ⟨⟨s, log⟩, hs, hlog⟩ := Option.map_eq_some_iff.mp (show (exec (stepAnswering plainExternals)
    (.accepted plainExternals {} 0 0, []) answeredTwice).map (·.2.map (·.1)) = some [1, 2, 2] by decide +kernel)
  exact ⟨s, log, hs, hlog, answers_in_order plainExternals {} 0 0 answeredTwice s log hs⟩

end Pion.Proof
