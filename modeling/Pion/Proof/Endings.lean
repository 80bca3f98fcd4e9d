import Pion.Proof.ReaderStates

/-!
# How requests end

A reader ends with a request that goes to `handle_request`, or with an exception. The one
exception there is comes from `choose_map_by_method`, for a method that the server does not know:
`answered_iff`. It comes from the hook, before there is any answer.

Up to there the session is what its reader has made of the bytes it was fed, which is the invariant
of a run.
-/

namespace Pion.Proof

open Pion Lib

variable {x : Externals} {server : HttpServer}

/-! ## Dispatch -/

/-- `handle_request` gets to a handler if the request is invalid, or its method is known. -/
theorem handleRequest_ok (server : HttpServer) (conn : TcpConnection) (ec : ReadError)
    {m : HttpRequest}
    (h : m.isValid = false ∨ m.method ∈ supportedMethods) :
    ∃ d, (server.handleRequest conn ec m).2 = .ok d := by
  unfold HttpServer.handleRequest
  split
  · cases ec with
    | ok => exact ⟨_, rfl⟩
    | socket => exact ⟨_, rfl⟩
    | parser e =>
      dsimp only
      split
      · exact ⟨_, rfl⟩
      · exact ⟨_, rfl⟩
  · rename_i hvalid
    split
    · dsimp only
      split
      · exact ⟨_, rfl⟩
      · exact ⟨_, rfl⟩
    · dsimp only
      split
      · exact ⟨_, rfl⟩
      · have hmethod : m.method ∈ supportedMethods :=
          h.resolve_left fun hinvalid => hvalid (by rw [hinvalid]; exact Or.inr rfl)
        obtain ⟨map, hmap⟩ := chooseMapByMethod_supported hmethod server.handlers
        rw [hmap]
        dsimp only
        split
        · exact ⟨_, rfl⟩
        · exact ⟨_, rfl⟩

theorem finishedReading_handling (server : HttpServer) {c : Session} (ec : ReadError)
    (h : c.reader.request.isValid = false ∨ c.reader.request.method ∈ supportedMethods) :
    ∃ d, (c.finishedReading server ec).phase = .handling d := by
  obtain ⟨d, hd⟩ := handleRequest_ok server c.conn ec h
  unfold Session.finishedReading
  dsimp only
  rw [hd]
  exact ⟨d, rfl⟩

/-- The phase behind a parse that throws nothing. -/
theorem afterParse_handling (c : Session) {r : ParseResult} {b : Tribool} (hrc : r.rc = .ok b)
    (hwaits : b ≠ .indeterminate) (hmethod : b = .true → r.msg.method ∈ supportedMethods) :
    ∃ d, (c.afterParse server r).phase = .handling d := by
  unfold Session.afterParse
  dsimp only
  rw [hrc]
  cases b with
  | indeterminate => exact absurd rfl hwaits
  | true => exact finishedReading_handling server _ (Or.inr (hmethod rfl))
  | false => exact finishedReading_handling server _ (Or.inl rfl)

theorem afterParse_failed (server : HttpServer) (c : Session) {r : ParseResult} {e : Exn}
    (hrc : r.rc = .error e) :
    (c.afterParse server r).phase = .failed e := by
  unfold Session.afterParse
  rw [hrc]

/-- A reader that was fed has gone on with what its parser made of the buffers. -/
theorem Reads.phase {c₀ : Session} (hstart : Starts x server c₀) {i j : Nat} {bufs : List Bytes}
    {c : Session}
    (h : Reads x server c₀ i j bufs c) :
    ((fed x server i j bufs).rc = .ok .indeterminate ∧ c.phase = .reading) ∨
      ∃ c', c.phase = (Session.afterParse server c' (fed x server i j bufs)).phase := by
  cases h with
  | waits h =>
    refine Or.inl ⟨rfl, ?_⟩
    unfold Session.handleConnection Session.receive
    rw [if_neg (by simp [h])]
  | bookmark h =>
    have hload : Loaded x server i j (resumed c₀ i j) [] := hstart.settled.loaded h i j
    rw [handleConnection_resumed h, consumeBytes_fed hload.fedBy]
    exact Or.inr ⟨_, rfl⟩
  | @read bufs c h data hphase hne hle =>
    cases (h.result hstart).2 with
    | waits hfed hh =>
      have hload := hfed.loaded hne
      have hrun := consumeBytes_fed hload.fedBy
      rw [arrived_unread] at hrun
      exact Or.inr ⟨_, congrArg Session.phase hrun⟩
    | done hload hb hh hrc => exact absurd ((afterParse_reading _ _ _).mp hphase) hrc

/-- **A request gets to one of the handlers, or to `finish()`, just if its method is known**, or
its head does not say how long its body is. Whatever the segmentation, and whatever the payload
handlers do. -/
theorem answered_iff (x : Externals) (server : HttpServer) (c₀ : Session)
    (hstart : Starts x server c₀) (i j : Nat)
    (bufs : List Bytes) (c : Session) (hreads : Reads x server c₀ i j bufs c) (head : Bytes)
    (s : HeaderState)
    (hhead : Accepts x head s) (rest : Bytes) (hbytes : bufs.flatten = head ++ rest) :
    (((fed x server i j bufs).rc = .ok .indeterminate ∧ c.phase = .reading) ∨ ∃ d, c.phase = .handling d) ↔
      ((headRequest x s).method ∈ supportedMethods ∨ framing x (headRequest x s) = none) := by
  have hrun : (headerScanner x).run ({}, HttpRequest.fresh) bufs.flatten = .stop none s rest := by
    rw [hbytes, headerScanner_append,
      show (headerScanner x).run ({}, HttpRequest.fresh) head = _ from hhead]
    rfl
  have hphase := hreads.phase hstart
  cases fed_fate x server i j bufs with
  | inHead _ h => cases hrun.symm.trans h.run
  | badHead hrun' _ _ => cases hrun.symm.trans hrun'
  | unframed hrun' hframing hrc _ =>
    rw [hrun] at hrun'
    cases hrun'
    refine iff_of_true (Or.inr ?_) (Or.inr hframing)
    rcases hphase with ⟨hwaits, _⟩ | ⟨c', hc'⟩
    · cases hrc.symm.trans hwaits
    · rw [hc']
      exact afterParse_handling c' hrc (fun h => by cases h) (fun h => by cases h)
  | unknown hrun' hframing hmethod hrc =>
    rw [hrun] at hrun'
    cases hrun'
    refine iff_of_false ?_ (fun h => h.elim hmethod hframing)
    rcases hphase with ⟨hwaits, _⟩ | ⟨c', hc'⟩
    · cases hrc.symm.trans hwaits
    · rw [hc', afterParse_failed server c' hrc]
      rintro (⟨_, hn⟩ | ⟨d, hn⟩)
      · cases hn
      · cases hn
  | @known s' tail b hrun' hframing hmethod hmsg hrc hwaits =>
    rw [hrun] at hrun'
    cases hrun'
    refine iff_of_true ?_ (Or.inl hmethod)
    rcases hphase with hwaiting | ⟨c', hc'⟩
    · exact Or.inl hwaiting
    · by_cases hb : b = .indeterminate
      · subst hb
        refine Or.inl ⟨hrc, ?_⟩
        rw [hc']
        exact (afterParse_reading _ _ _).mpr hrc
      · rw [hc']
        exact Or.inr (afterParse_handling c' hrc hb fun _ => hmsg ▸ hmethod)

/-- A `GET` for which there is no handler. -/
theorem answered_get :
    ((fed plainExternals {} 0 0 [getRequest.head]).rc = .ok .indeterminate ∧
        (readOnce {} getRequest.head).phase = .reading) ∨
      ∃ d, (readOnce {} getRequest.head).phase = .handling d :=
  (answered_iff plainExternals {} .initial .accepted 0 0 [getRequest.head] (readOnce {} getRequest.head)
    (reads_once {} (by decide +kernel) (by decide +kernel)) getRequest.head getRequest.state
    (by unfold Accepts; decide +kernel) [] (by rw [List.flatten_singleton, List.append_nil])).mpr
      (Or.inl (by decide +kernel))

def patchHead : Bytes := str "PATCH /a HTTP/1.1\r\n\r\n"

def patchHeadState : HeaderState :=
  ({ headersParseState := .expectingFinalNewline, method := str "PATCH", resource := str "/a" }, {})

/-- A `PATCH` leaves by an exception, and the connection waits for nothing. -/
theorem unanswered_patch :
    Accepts plainExternals patchHead patchHeadState ∧
      Reads plainExternals {} .initial 0 0 [patchHead] (readOnce {} patchHead) ∧
      (readOnce {} patchHead).phase = .failed (.invalidHttpMethod (str "PATCH")) := by
  refine ⟨?_, reads_once {} (by decide +kernel) (by decide +kernel), by decide +kernel⟩
  unfold Accepts
  decide +kernel

end Pion.Proof
