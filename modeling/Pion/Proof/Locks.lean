import Pion.Lib.Machine
import Pion.Proof.Endings
import Pion.Proof.ResponseBody
import Pion.TcpServer

/-!
# The server mutex

`finish_connection` holds the mutex while the next request of a pipelined connection is parsed
and dispatched. If that comes to `tcp_conn->finish()` before it returns, the thread waits for
itself: `finish_connection` would have to lock the mutex once more.

On an open connection this takes a payload handler that throws, since `parse` then fails without
an error code of its own (`parse_fails_iff`). On a closed one, it takes just a result: a bad
request is reported lost by `handle_request`, and a good one by the writer of its handler.
-/

namespace Pion.Proof

open Pion Lib TcpServer

variable {x : Externals} {atOnce : AtOnce}

/-! ## What comes to `finish()` -/

/-- A writer that has lost its connection calls `finish()` instead of sending. -/
theorem send_finish_iff (conn : TcpConnection) (m : HttpRequest) :
    ((HttpResponseWriter.new conn m).send x).2 = .finish ↔ conn.isOpen = false :=
  sendMoreData_finish_iff _ false

/-- A request that is left alone when its connection is closed: its handler answers later, or it
is a WebSocket. -/
def later (atOnce : AtOnce) : Dispatch → Bool
  | .websocket _ _ _ => true
  | .finish | .rootOptions => false
  | d => !atOnce d

theorem finishesAtOnce_open {conn : TcpConnection} (hopen : conn.isOpen = true) (m : HttpRequest)
    (d : Dispatch) :
    finishesAtOnce x atOnce conn m d = true ↔ d = .finish := by
  have hsend : ¬ ((HttpResponseWriter.new conn m).send x).2 = .finish := by
    rw [send_finish_iff, hopen]
    exact Bool.noConfusion
  unfold finishesAtOnce
  cases d <;> simp [hsend]

theorem finishesAtOnce_closed {conn : TcpConnection} (hclosed : conn.isOpen = false)
    (m : HttpRequest) (d : Dispatch) :
    finishesAtOnce x atOnce conn m d = true ↔ ¬ later atOnce d = true := by
  have hsend := (send_finish_iff (x := x) conn m).mpr hclosed
  unfold finishesAtOnce later
  cases d <;> simp [hsend]

/-- What a new reader makes of the bytes behind the bookmark. -/
def bookmarkResult (x : Externals) (server : HttpServer) (conn : TcpConnection) (i j : Nat) :
    ParseResult :=
  parse x server.handleRequestAfterHeadersParsed (HttpRequestReader.new i j).parser HttpRequest.fresh none
    (bookmarked conn)

/-- A closed connection whose next request is left alone: it is not complete, or the hook throws,
or it is complete and its handler does not use the writer at once. -/
def leftAlone (x : Externals) (atOnce : AtOnce) (server : HttpServer) (conn : TcpConnection)
    (i j : Nat) : Bool :=
  let r := bookmarkResult x server conn i j
  match r.rc with
  | .error _ | .ok .indeterminate => true
  | .ok .false => false
  | .ok .true =>
    match (server.handleRequest conn .ok r.msg).2 with
    | .ok d => later atOnce d
    | .error _ => true

/-- Finishing a connection does not come back to it: there is no next request to be taken up; or the
connection is open, and no payload handler throws on the bytes behind the bookmark; or it is
closed, and its next request is left alone. -/
def NotReentered (x : Externals) (atOnce : AtOnce) (w : TcpServer) : Event → Prop
  | .finish k i j =>
    let conn := (w.sessions k).conn
    w.http.listening = false ∨ conn.isPipelined = false ∨
      (conn.isOpen = true ∧ ¬ PayloadThrows x w.http i j (bookmarked conn)) ∨
      (conn.isOpen = false ∧ leftAlone x atOnce w.http conn i j = true)
  | .accept _ _ _ | .read _ _ | .readError _ | .close _ | .stop _ => True

instance decidablePayloadThrows (server : HttpServer) (i j : Nat) (bytes : Bytes) :
    Decidable (PayloadThrows x server i j bytes) :=
  decidable_of_iff _ (parse_fails_iff x server i j bytes)

instance decidableNotReentered (w : TcpServer) : ∀ e, Decidable (NotReentered x atOnce w e)
  | .finish k i j => inferInstanceAs (Decidable (w.http.listening = false ∨ (w.sessions k).conn.isPipelined = false ∨
      ((w.sessions k).conn.isOpen = true ∧ ¬ PayloadThrows x w.http i j (bookmarked (w.sessions k).conn)) ∨
      ((w.sessions k).conn.isOpen = false ∧ leftAlone x atOnce w.http (w.sessions k).conn i j = true)))
  | .accept _ _ _ | .read _ _ | .readError _ | .close _ | .stop _ => .isTrue trivial

/-- The new reader of a pipelined connection. -/
theorem handleConnection_bookmark {c : Session} {server : HttpServer}
    (hp : c.conn.isPipelined = true) (i j : Nat) :
    c.handleConnection x server i j =
      (resumed c i j).afterParse server (bookmarkResult x server c.conn i j) := by
  rw [handleConnection_resumed hp]
  rfl

theorem handleRequest_isOpen (server : HttpServer) (conn : TcpConnection) (ec : ReadError)
    (m : HttpRequest) :
    (server.handleRequest conn ec m).1.isOpen = conn.isOpen := by
  rcases handleRequest_conn server conn ec m with h | h
  · rw [h]
  · rw [h]
    rfl

/-- What a reader that has failed is dispatched to. -/
theorem handleRequest_invalid (server : HttpServer) (conn : TcpConnection) (ec : Option ErrorValue)
    {m : HttpRequest}
    (hm : m.isValid = false) :
    (server.handleRequest conn (.ofParser ec) m).2 =
      .ok (if ec ≠ none ∧ conn.isOpen = true then .badRequest else .finish) := by
  unfold HttpServer.handleRequest
  rw [if_pos (Or.inr (by rw [hm]; rfl))]
  cases ec with
  | none => rfl
  | some e =>
    dsimp only [ReadError.ofParser]
    cases conn.isOpen <;> rfl

/-- A valid request is never answered by `finish()` at once. -/
theorem handleRequest_valid {server : HttpServer} {conn : TcpConnection} {m : HttpRequest}
    {d : Dispatch}
    (hm : m.isValid = true) (h : (server.handleRequest conn .ok m).2 = .ok d) : d ≠ .finish := by
  unfold HttpServer.handleRequest at h
  rw [if_neg (by simp [hm])] at h
  split at h
  · dsimp only at h
    split at h
    · cases h
      exact fun hn => by cases hn
    · cases h
      exact fun hn => by cases hn
  · dsimp only at h
    split at h
    · cases h
      exact fun hn => by cases hn
    · split at h
      · cases h
      · split at h
        · cases h
          exact fun hn => by cases hn
        · cases h
          exact fun hn => by cases hn

/-- Where a valid request goes does not depend on the connection. -/
theorem handleRequest_dispatch {server : HttpServer} {m : HttpRequest} (hm : m.isValid = true)
    (conn conn' : TcpConnection) :
    (server.handleRequest conn .ok m).2 = (server.handleRequest conn' .ok m).2 := by
  have hvalid : ¬ (ReadError.ok ≠ ReadError.ok ∨ (!m.isValid) = true) := by simp [hm]
  unfold HttpServer.handleRequest
  rw [if_neg hvalid, if_neg hvalid]
  by_cases hws : isWebsocketUpgrade m = true
  · rw [if_pos hws, if_pos hws]
    dsimp only
    cases (server.findWsHandlers m.resource).1 with
    | true => rfl
    | false => rfl
  · rw [if_neg hws, if_neg hws]
    dsimp only
    by_cases hroot : requestMethodOptions = m.method ∧
        (str "*" = stripTrailingSlash m.resource ∨ str "/*" = stripTrailingSlash m.resource)
    · rw [if_pos hroot, if_pos hroot]
    · rw [if_neg hroot, if_neg hroot]
      cases chooseMapByMethod m.method server.handlers with
      | error e => rfl
      | ok map =>
        dsimp only
        cases findSubmatch map (stripTrailingSlash m.resource) <;> rfl

/-! ## One call of `finish_connection` -/

theorem finishConnection_mutex {w : TcpServer} (hfree : w.mutex = .free) (k i j : Nat) :
    (w.finishConnection x atOnce k i j).mutex = .free ↔
      (w.http.listening = true → (w.sessions k).conn.getKeepAlive = true →
        let c := (w.sessions k).handleConnection x w.http i j
        ∀ d, c.phase = .handling d → finishesAtOnce x atOnce c.conn c.reader.request d = false) := by
  have hheld : w.lock.mutex = .held := by
    unfold TcpServer.lock
    rw [hfree]
    rfl
  unfold TcpServer.finishConnection
  dsimp only
  by_cases hkeep : w.lock.http.listening = true ∧ (w.lock.sessions k).conn.getKeepAlive = true
  · rw [if_pos hkeep]
    have hrelease : ∀ c, (w.lock.setSession k c).unlock.mutex = .free := by
      intro c
      show w.lock.mutex.unlock = .free
      rw [hheld]
      rfl
    have hrelock : ∀ c, (w.lock.setSession k c).lock.unlock.mutex ≠ .free := by
      intro c
      show w.lock.mutex.lock.unlock ≠ .free
      rw [hheld]
      exact fun h => by cases h
    rw [show w.lock.sessions k = w.sessions k from rfl, show w.lock.http = w.http from rfl]
    generalize (w.sessions k).handleConnection x w.http i j = c
    cases hphase : c.phase with
    | handling d =>
      dsimp only
      constructor
      · intro hm _ _ d' hd
        cases hd
        rw [Bool.eq_false_iff]
        intro hfin
        rw [if_pos hfin] at hm
        exact hrelock _ hm
      · intro hall
        rw [if_neg (by rw [hall hkeep.1 hkeep.2 d rfl]; exact Bool.false_ne_true)]
        exact hrelease _
    | reading => exact iff_of_true (hrelease _) (fun _ _ d hd => by cases hd)
    | closed => exact iff_of_true (hrelease _) (fun _ _ d hd => by cases hd)
    | failed e => exact iff_of_true (hrelease _) (fun _ _ d hd => by cases hd)
  · rw [if_neg hkeep]
    refine iff_of_true ?_ fun hlisten hk => absurd ⟨hlisten, hk⟩ hkeep
    show w.lock.mutex.unlock = .free
    rw [hheld]
    rfl

/-- A request that `parse` accepts is marked as valid. -/
theorem parse_valid {hook : Hook} {p : HttpParser} {m : HttpRequest} {ec : Option ErrorValue}
    {buf : Bytes}
    (h : (parse x hook p m ec buf).rc = .ok .true) :
    (parse x hook p m ec buf).msg.isValid = true := by
  rcases hr : parseLoop x hook 3 (opened p m ec buf) 0 with ⟨g, t, rc⟩
  rw [parse_of_loop hr] at h ⊢
  cases rc with
  | error e => cases h
  | ok b =>
    cases b with
    | true =>
      have hmsg := (parseEnd_true (x := x) g t).2.2.2.1
      unfold Concluded at hmsg
      rw [hmsg]
    | false => cases h
    | indeterminate => cases h

/-- A reader that has its result hands it to `handle_request`, and with a valid request there is
no error. -/
theorem bookmarkResult_valid (x : Externals) (server : HttpServer) (conn : TcpConnection)
    (i j : Nat)
    (h : (bookmarkResult x server conn i j).rc = .ok .true) :
    (bookmarkResult x server conn i j).ec = none ∧
      (bookmarkResult x server conn i j).msg.isValid = true ∧
      (bookmarkResult x server conn i j).msg.method ∈ supportedMethods := by
  refine ⟨(parse_reports x _ _ _ none (bookmarked conn)).1 ?_, parse_valid h, ?_⟩
  · rw [show (parse x _ _ _ none (bookmarked conn)).rc = _ from h]
    exact fun hn => by cases hn
  · cases (inHead_new x i j).fate server (bookmarked conn) with
    | inHead hrc _ => cases h.symm.trans hrc
    | badHead _ hrc _ => cases h.symm.trans hrc
    | unframed _ _ hrc _ => cases h.symm.trans hrc
    | unknown _ _ _ hrc => cases h.symm.trans hrc
    | known _ _ hmethod hmsg _ _ =>
      rw [← hmsg] at hmethod
      exact hmethod

theorem finishedReading_eq (server : HttpServer) (c : Session) (ec : ReadError) {d : Dispatch}
    (h : (server.handleRequest c.conn ec c.reader.request).2 = .ok d) :
    (c.finishedReading server ec).phase = .handling d ∧
      (c.finishedReading server ec).conn.isOpen = c.conn.isOpen := by
  unfold Session.finishedReading
  dsimp only
  rw [h]
  exact ⟨rfl, handleRequest_isOpen _ _ _ _⟩

theorem finishes_handling {c : Session} {d : Dispatch} (h : c.phase = .handling d) :
    (∀ d, c.phase = .handling d → finishesAtOnce x atOnce c.conn c.reader.request d = false) ↔
      ¬ finishesAtOnce x atOnce c.conn c.reader.request d = true := by
  rw [Bool.not_eq_true]
  constructor
  · exact fun hall => hall d h
  · intro hd d' hd'
    cases h.symm.trans hd'
    exact hd

theorem afterParse_false (server : HttpServer) (c : Session) {r : ParseResult}
    (h : r.rc = .ok .false) :
    ∃ c' : Session, c.afterParse server r = c'.finishedReading server (.ofParser r.ec) ∧
      c'.conn.isOpen = c.conn.isOpen ∧ c'.reader.request.isValid = false := by
  unfold Session.afterParse
  rw [h]
  exact ⟨_, rfl, rfl, rfl⟩

theorem afterParse_true (server : HttpServer) (c : Session) {r : ParseResult}
    (h : r.rc = .ok .true) :
    ∃ c' : Session, c.afterParse server r = c'.finishedReading server (.ofParser r.ec) ∧
      c'.conn.isOpen = c.conn.isOpen ∧ c'.reader.request = r.msg := by
  unfold Session.afterParse
  rw [h]
  refine ⟨_, rfl, ?_, rfl⟩
  unfold Session.keepPosition
  dsimp only
  split
  · split <;> rfl
  · rfl

/-- What the result of the next reader comes to. -/
theorem afterParse_finishes_iff (x : Externals) (atOnce : AtOnce) (server : HttpServer)
    (c : Session) (i j : Nat) :
    (let c' := (resumed c i j).afterParse server (bookmarkResult x server c.conn i j)
     ∀ d, c'.phase = .handling d → finishesAtOnce x atOnce c'.conn c'.reader.request d = false) ↔
      (c.conn.isOpen = true ∧ ¬ PayloadThrows x server i j (bookmarked c.conn)) ∨
        (c.conn.isOpen = false ∧ leftAlone x atOnce server c.conn i j = true) := by
  have hfails : (bookmarkResult x server c.conn i j).rc = .ok .false ∧
      (bookmarkResult x server c.conn i j).ec = none ↔ PayloadThrows x server i j (bookmarked c.conn) :=
    parse_fails_iff x server i j (bookmarked c.conn)
  have hvalid := bookmarkResult_valid x server c.conn i j
  unfold leftAlone
  rw [← hfails]
  generalize bookmarkResult x server c.conn i j = r at hvalid ⊢
  dsimp only
  rcases hrc : r.rc with e | b
  · -- an exception passes through `finish_connection`, and the mutex is released
    have hphase := afterParse_failed server (resumed c i j) hrc
    refine iff_of_true (fun d hd => by cases hphase.symm.trans hd) ?_
    cases c.conn.isOpen with
    | true => exact Or.inl ⟨rfl, fun hn => by cases hn.1⟩
    | false => exact Or.inr ⟨rfl, rfl⟩
  cases b with
  | indeterminate =>
    have hphase := (afterParse_reading server (resumed c i j) r).mpr hrc
    refine iff_of_true (fun d hd => by cases hphase.symm.trans hd) ?_
    cases c.conn.isOpen with
    | true => exact Or.inl ⟨rfl, fun hn => by cases hn.1⟩
    | false => exact Or.inr ⟨rfl, rfl⟩
  | false =>
    obtain ⟨c', hc', hconn, hinvalid⟩ := afterParse_false server (resumed c i j) hrc
    have hd := handleRequest_invalid server c'.conn r.ec hinvalid
    obtain ⟨hphase, hisOpen⟩ := finishedReading_eq server c' _ hd
    rw [hc', finishes_handling hphase]
    have hisOpen' : c'.conn.isOpen = c.conn.isOpen := hconn
    cases hopen : c.conn.isOpen with
    | true =>
      rw [finishesAtOnce_open (hisOpen.trans (hisOpen'.trans hopen)), hisOpen'.trans hopen]
      cases r.ec with
      | none => simp
      | some e => simp
    | false =>
      rw [finishesAtOnce_closed (hisOpen.trans (hisOpen'.trans hopen)), hisOpen'.trans hopen]
      simp [later]
  | true =>
    obtain ⟨hec, hisValid, hmethod⟩ := hvalid hrc
    obtain ⟨c', hc', hconn, hmsg⟩ := afterParse_true server (resumed c i j) hrc
    have hreading : (resumed c i j).afterParse server r = c'.finishedReading server .ok := by
      rw [hc', hec]
      rfl
    obtain ⟨d, hd⟩ := handleRequest_ok server c'.conn .ok (Or.inr hmethod)
    have hd' := hd
    rw [← hmsg] at hd'
    obtain ⟨hphase, hisOpen⟩ := finishedReading_eq server c' .ok hd'
    have hisOpen' : c'.conn.isOpen = c.conn.isOpen := hconn
    rw [hreading, finishes_handling hphase]
    cases hopen : c.conn.isOpen with
    | true =>
      rw [finishesAtOnce_open (hisOpen.trans (hisOpen'.trans hopen))]
      exact iff_of_true (handleRequest_valid hisValid hd) (Or.inl ⟨rfl, fun hn => by cases hn.1⟩)
    | false =>
      rw [finishesAtOnce_closed (hisOpen.trans (hisOpen'.trans hopen)), not_not]
      rw [handleRequest_dispatch hisValid c'.conn c.conn] at hd
      rw [hd]
      exact ⟨fun hlater => Or.inr ⟨rfl, hlater⟩,
        fun h => h.elim (fun hn => by cases hn.1) (fun hn => hn.2)⟩

/-- **`finish_connection` releases the mutex just if it is not entered again.** -/
theorem finishConnection_free_iff {w : TcpServer} (hfree : w.mutex = .free) (k i j : Nat) :
    (w.finishConnection x atOnce k i j).mutex = .free ↔ NotReentered x atOnce w (.finish k i j) := by
  rw [finishConnection_mutex hfree]
  unfold NotReentered
  dsimp only
  by_cases hlisten : w.http.listening = true
  · by_cases hp : (w.sessions k).conn.isPipelined = true
    · have hkeep : (w.sessions k).conn.getKeepAlive = true := by
        have hpipe : (w.sessions k).conn.currentLifecycle = .pipelined := of_decide_eq_true hp
        unfold TcpConnection.getKeepAlive
        rw [hpipe]
        rfl
      rw [handleConnection_bookmark hp, hlisten, hp]
      have hiff := afterParse_finishes_iff x atOnce w.http (w.sessions k) i j
      constructor
      · intro hall
        exact Or.inr (Or.inr (hiff.mp (hall rfl hkeep)))
      · rintro (hn | hn | hcond) _ _
        · cases hn
        · cases hn
        · exact hiff.mpr hcond
    · refine iff_of_true ?_ (Or.inr (Or.inl (Bool.eq_false_iff.mpr hp)))
      intro _ _ d hd
      have hwaits : ((w.sessions k).handleConnection x w.http i j).phase = .reading := by
        unfold Session.handleConnection Session.receive
        rw [if_neg hp]
      cases hwaits.symm.trans hd
  · exact iff_of_true (fun hn => absurd hn hlisten) (Or.inl (Bool.eq_false_iff.mpr hlisten))

/-! ## Runs -/

theorem step_mutex {w w' : TcpServer} {e : Event} (hstep : step x atOnce w e = some w')
    (hfree : w.mutex = .free)
    (h : NotReentered x atOnce w e) : w'.mutex = .free := by
  have hrelease : w.mutex.lock.unlock = .free := by
    rw [hfree]
    rfl
  unfold TcpServer.step at hstep
  cases e with
  | accept k i j =>
    dsimp only at hstep
    split at hstep
    · cases hstep
      exact hrelease
    · cases hstep
  | read k data =>
    dsimp only at hstep
    split at hstep
    · cases hstep
      exact hfree
    · cases hstep
  | readError k =>
    dsimp only at hstep
    split at hstep
    · cases hstep
      exact hfree
    · cases hstep
  | finish k i j =>
    dsimp only at hstep
    split at hstep
    · rw [if_pos hfree] at hstep
      cases hstep
      exact (finishConnection_free_iff hfree k i j).mpr h
    all_goals cases hstep
  | close k =>
    cases hstep
    exact hfree
  | stop waitUntilFinished =>
    dsimp only at hstep
    rw [if_pos hfree] at hstep
    cases hstep
    unfold TcpServer.stop
    dsimp only
    cases waitUntilFinished <;> exact hrelease

/-- **No thread waits for itself** in a run whose calls of `finish_connection` are not entered again: the
mutex is released by every completion handler. -/
theorem mutex_released (x : Externals) (atOnce : AtOnce) (http : HttpServer) (es : List Event)
    (w : TcpServer)
    (hrun : exec (step x atOnce) (initial http) es = some w)
    (hentered : Throughout (step x atOnce) (NotReentered x atOnce) (initial http) es) :
    w.mutex = .free :=
  exec_throughout (fun w => w.mutex = .free) rfl
    (fun _ _ _ hfree h hstep => step_mutex hstep hfree h) hrun hentered

/-- A `GET` and an upload behind it, in one read. -/
def pipelinedReads : List Event :=
  [.accept 1 0 0, .read 1 (getRequest.head ++ (sizedHead ++ str "abc")), .finish 1 0 0]

theorem mutex_released_upload :
    ∃ w, exec (step plainExternals fun _ => true) (initial uploadServer) pipelinedReads = some w ∧
      w.mutex = .free := by
  obtain ⟨w, hw⟩ := Option.isSome_iff_exists.mp
    (show (exec (step plainExternals fun _ => true) (initial uploadServer) pipelinedReads).isSome = true by decide +kernel)
  exact ⟨w, hw, mutex_released plainExternals (fun _ => true) uploadServer pipelinedReads w hw (by decide +kernel)⟩

/-- A server whose payload handler for uploads to `/u` throws. -/
def refusingServer : HttpServer where
  payloads := { post := [(str "/u", fun _ => { throws := fun _ _ => true })] }

/-- The same events with a payload handler that throws: the thread waits for itself. -/
theorem mutex_deadlocked :
    (exec (step plainExternals fun _ => true) (initial refusingServer) pipelinedReads).map (·.mutex) =
      some .deadlocked := by
  decide +kernel

end Pion.Proof
