import Pion.Lib.Machine
import Pion.MessageCalls
import Pion.Proof.RoundTrip

/-!
# The cached first line

`get_first_line` builds the line when the cached one is empty, and otherwise answers the
cached one. So every operation that changes a part of the line has to clear the cache, and
all do but one: `change_resource` leaves it as it is.

`firstLine_coherent_iff` says what this means for sequences of operations. A request answers
a stale line at some point exactly if its resource is changed to another one while a line is
cached; a response never does.
-/

namespace Pion.Proof

open Pion Lib

variable {x : Externals} {urlEncode : Bytes → Bytes}

/-! ## The lines -/

/-- `HTTP/major.minor`. -/
def versionText (m : HttpMessage) : Bytes :=
  str "HTTP/" ++ toString m.versionMajor.toNat ++ str "." ++ toString m.versionMinor.toNat

/-- `METHOD SP resource[?query] SP HTTP/major.minor`. -/
def requestLine (r : HttpRequest) : Bytes :=
  r.method ++ str " " ++ r.resource ++ (if r.queryString = [] then [] else str "?" ++ r.queryString) ++
    str " " ++ versionText r.toHttpMessage

/-- `HTTP/major.minor SP code SP message`. -/
def statusLine (s : HttpResponse) : Bytes :=
  versionText s.toHttpMessage ++ str " " ++ toString s.statusCode ++ str " " ++ s.statusMessage

theorem updateFirstLine_request (r : HttpRequest) : r.updateFirstLine = requestLine r := rfl

theorem updateFirstLine_response (s : HttpResponse) : s.updateFirstLine = statusLine s := rfl

/-- No line is cached, or the line is this one. -/
def LineIs (m : HttpMessage) (line : Bytes) : Prop := m.firstLine = [] ∨ m.firstLine = line

theorem getFirstLine_iff {m : HttpMessage} {line : Bytes} :
    (m.getFirstLine line).firstLine = line ↔ LineIs m line := by
  unfold HttpMessage.getFirstLine LineIs
  split
  · rename_i h
    exact ⟨fun _ => Or.inl h, fun _ => rfl⟩
  · rename_i h
    exact ⟨Or.inr, fun hl => hl.resolve_left h⟩

/-- `get_first_line` answers the line of the request as it is now. -/
def HttpRequest.Coherent (r : HttpRequest) : Prop := r.getFirstLine.2 = requestLine r

/-- `get_first_line` answers the line of the response as it is now. -/
def HttpResponse.Coherent (s : HttpResponse) : Prop := s.getFirstLine.2 = statusLine s

theorem HttpRequest.coherent_iff (r : HttpRequest) :
    HttpRequest.Coherent r ↔ LineIs r.toHttpMessage (requestLine r) := by
  unfold HttpRequest.Coherent
  rw [← updateFirstLine_request]
  exact getFirstLine_iff

theorem HttpResponse.coherent_iff (s : HttpResponse) :
    HttpResponse.Coherent s ↔ LineIs s.toHttpMessage (statusLine s) := by
  unfold HttpResponse.Coherent
  rw [← updateFirstLine_response]
  exact getFirstLine_iff

/-! ## Operations of the base class -/

/-- The operation clears the cached line, or it changes neither the line nor the version. -/
def KeepsLine (m m' : HttpMessage) : Prop :=
  m'.firstLine = [] ∨
    m'.firstLine = m.firstLine ∧ m'.versionMajor = m.versionMajor ∧ m'.versionMinor = m.versionMinor

theorem KeepsLine.same {m m' : HttpMessage} (h1 : m'.firstLine = m.firstLine)
    (h2 : m'.versionMajor = m.versionMajor) (h3 : m'.versionMinor = m.versionMinor) : KeepsLine m m' :=
  Or.inr ⟨h1, h2, h3⟩

theorem messageCall_keepsLine (m : HttpMessage) (c : MessageCall) : KeepsLine m (c.run x m) := by
  cases c with
  | setVersionMajor | setVersionMinor => exact Or.inl rfl
  | updateContentLengthUsingHeader =>
    unfold MessageCall.run HttpMessage.updateContentLengthUsingHeader
    dsimp only
    split
    · exact .same rfl rfl rfl
    · rename_i v _
      cases x.parseUint64 v with
      | none => exact .same rfl rfl rfl
      | some n => exact .same rfl rfl rfl
  | updateTransferEncodingUsingHeader =>
    unfold MessageCall.run HttpMessage.updateTransferEncodingUsingHeader
    dsimp only
    split
    · exact .same rfl rfl rfl
    · exact .same rfl rfl rfl
  | _ => exact .same rfl rfl rfl

theorem KeepsLine.versionText {m m' : HttpMessage} (h : KeepsLine m m') (hne : m'.firstLine ≠ []) :
    m'.firstLine = m.firstLine ∧ versionText m' = versionText m := by
  obtain ⟨h1, h2, h3⟩ := h.resolve_left hne
  unfold Proof.versionText
  exact ⟨h1, by rw [h2, h3]⟩

/-- Behind `get_first_line`, the line is cached, and nothing else has changed. -/
theorem getFirstLine_line {m : HttpMessage} {line : Bytes} (h : LineIs m line) :
    (m.getFirstLine line).firstLine = line ∧ versionText (m.getFirstLine line) = versionText m := by
  refine ⟨getFirstLine_iff.mpr h, ?_⟩
  rw [getFirstLine_frame]
  rfl

theorem prepareHeadersForSend_line (m : HttpMessage) (keepAlive usingChunks : Bool) :
    (m.prepareHeadersForSend x keepAlive usingChunks).firstLine = m.firstLine ∧
      versionText (m.prepareHeadersForSend x keepAlive usingChunks) = versionText m := by
  rw [prepareHeadersForSend_frame]
  exact ⟨rfl, rfl⟩

/-! ## Requests -/

/-- Of the base class, the line shows the version only. -/
theorem requestLine_message {r : HttpRequest} {m : HttpMessage}
    (h : versionText m = versionText r.toHttpMessage) :
    requestLine { r with toHttpMessage := m } = requestLine r := by
  unfold requestLine
  dsimp only
  rw [h]

theorem HttpRequest.coherent_message {r : HttpRequest} {m : HttpMessage} (hr : HttpRequest.Coherent r)
    (hm : KeepsLine r.toHttpMessage m) : HttpRequest.Coherent { r with toHttpMessage := m } := by
  rw [HttpRequest.coherent_iff] at hr ⊢
  by_cases hne : m.firstLine = []
  · exact Or.inl hne
  · obtain ⟨hline, hversion⟩ := hm.versionText hne
    have hcached : r.firstLine = requestLine r := hr.resolve_left fun h => hne (hline.trans h)
    exact Or.inr (hline.trans (hcached.trans (requestLine_message hversion).symm))

theorem HttpRequest.coherent_getFirstLine {r : HttpRequest} {m : HttpMessage}
    (hr : HttpRequest.Coherent r) (hline : m.firstLine = r.firstLine)
    (hversion : versionText m = versionText r.toHttpMessage) :
    HttpRequest.Coherent { r with toHttpMessage := m.getFirstLine r.updateFirstLine } := by
  rw [HttpRequest.coherent_iff] at hr ⊢
  unfold LineIs at hr
  rw [← hline] at hr
  obtain ⟨hcached, hsame⟩ := getFirstLine_line hr
  exact Or.inr (hcached.trans (requestLine_message (hsame.trans hversion)).symm)

/-- What an event of a run does to a request. -/
def requestStep (x : Externals) (urlEncode : Bytes → Bytes) (r : HttpRequest) (c : RequestCall) :
    Option HttpRequest := some (c.run x urlEncode r)

/-- The call does not change the resource to another one while a line is cached. -/
def ClearsLine (r : HttpRequest) : RequestCall → Prop
  | .changeResource s => r.firstLine = [] ∨ s = r.resource
  | _ => True

/-- **Every call keeps the line coherent, unless it changes the resource under it.** -/
theorem requestCall_coherent {r : HttpRequest} (hr : HttpRequest.Coherent r) (c : RequestCall)
    (hc : ClearsLine r c) : HttpRequest.Coherent (c.run x urlEncode r) := by
  have hempty : ∀ r' : HttpRequest, r'.firstLine = [] → HttpRequest.Coherent r' := by
    intro r' h
    rw [HttpRequest.coherent_iff]
    exact Or.inl h
  have hsame : ∀ r' : HttpRequest, r'.firstLine = r.firstLine → requestLine r' = requestLine r →
      HttpRequest.Coherent r' := by
    intro r' h1 h2
    rw [HttpRequest.coherent_iff] at hr ⊢
    unfold LineIs
    rw [h1, h2]
    exact hr
  cases c with
  | message call => exact HttpRequest.coherent_message hr (messageCall_keepsLine r.toHttpMessage call)
  | setMethod | setResource | setQueryString | useQueryParamsForQueryString
  | useQueryParamsForPostContent | clear => exact hempty _ rfl
  | addQuery | changeQuery | deleteQuery | writeQueries => exact hsame _ rfl rfl
  | changeResource s =>
    rcases hc with h | rfl
    · exact hempty _ h
    · exact hr
  | setContentSpan content =>
    unfold RequestCall.run
    dsimp only
    split
    · exact hr
    · exact HttpRequest.coherent_message hr (.same rfl rfl rfl)
  | getFirstLine => exact HttpRequest.coherent_getFirstLine hr rfl rfl
  | prepareBuffersForSend keepAlive usingChunks =>
    obtain ⟨hline, hversion⟩ := prepareHeadersForSend_line (x := x) r.toHttpMessage keepAlive usingChunks
    exact HttpRequest.coherent_getFirstLine hr hline hversion

/-- A request behind some calls. -/
def afterRequestCalls (x : Externals) (urlEncode : Bytes → Bytes) (r : HttpRequest)
    (calls : List RequestCall) : Option HttpRequest := exec (requestStep x urlEncode) r calls

/-- Changing the resource under a cached line makes the line stale. -/
theorem changeResource_stale {r : HttpRequest} {s : Bytes} (hr : HttpRequest.Coherent r)
    (hcached : r.firstLine ≠ []) (hs : s ≠ r.resource) : ¬ HttpRequest.Coherent (r.changeResource s) := by
  intro h
  rw [HttpRequest.coherent_iff] at hr h
  have hlines : requestLine r = requestLine (r.changeResource s) :=
    (hr.resolve_left hcached).symm.trans (h.resolve_left hcached)
  unfold requestLine HttpRequest.changeResource at hlines
  simp only [List.append_assoc, List.append_cancel_left_eq] at hlines
  -- the two lines agree behind the resource
  exact hs (List.append_cancel_right hlines).symm

/-! ## Responses -/

theorem statusLine_message {s : HttpResponse} {m : HttpMessage}
    (h : versionText m = versionText s.toHttpMessage) :
    statusLine { s with toHttpMessage := m } = statusLine s := by
  unfold statusLine
  dsimp only
  rw [h]

theorem HttpResponse.coherent_message {s : HttpResponse} {m : HttpMessage}
    (hs : HttpResponse.Coherent s) (hm : KeepsLine s.toHttpMessage m) :
    HttpResponse.Coherent { s with toHttpMessage := m } := by
  rw [HttpResponse.coherent_iff] at hs ⊢
  by_cases hne : m.firstLine = []
  · exact Or.inl hne
  · obtain ⟨hline, hversion⟩ := hm.versionText hne
    have hcached : s.firstLine = statusLine s := hs.resolve_left fun h => hne (hline.trans h)
    exact Or.inr (hline.trans (hcached.trans (statusLine_message hversion).symm))

theorem HttpResponse.coherent_getFirstLine {s : HttpResponse} {m : HttpMessage}
    (hs : HttpResponse.Coherent s) (hline : m.firstLine = s.firstLine)
    (hversion : versionText m = versionText s.toHttpMessage) :
    HttpResponse.Coherent { s with toHttpMessage := m.getFirstLine s.updateFirstLine } := by
  rw [HttpResponse.coherent_iff] at hs ⊢
  unfold LineIs at hs
  rw [← hline] at hs
  obtain ⟨hcached, hsame⟩ := getFirstLine_line hs
  exact Or.inr (hcached.trans (statusLine_message (hsame.trans hversion)).symm)

/-- **Every call keeps the line of a response coherent.** -/
theorem responseCall_coherent {s : HttpResponse} (hs : HttpResponse.Coherent s) (c : ResponseCall) :
    HttpResponse.Coherent (c.run x s) := by
  have hempty : ∀ s' : HttpResponse, s'.firstLine = [] → HttpResponse.Coherent s' := by
    intro s' h
    rw [HttpResponse.coherent_iff]
    exact Or.inl h
  cases c with
  | message call => exact HttpResponse.coherent_message hs (messageCall_keepsLine s.toHttpMessage call)
  | setStatusCode | setStatusMessage | clear => exact hempty _ rfl
  | setCookie | deleteCookie => exact HttpResponse.coherent_message hs (.same rfl rfl rfl)
  | updateRequestInfo r =>
    unfold ResponseCall.run HttpResponse.updateRequestInfo
    dsimp only
    split
    · exact HttpResponse.coherent_message (s := { s with requestMethod := r.method }) hs
        (.same rfl rfl rfl)
    split
    · exact hempty _ rfl
    · exact hs
  | getFirstLine => exact HttpResponse.coherent_getFirstLine hs rfl rfl
  | prepareBuffersForSend keepAlive usingChunks =>
    obtain ⟨hline, hversion⟩ := prepareHeadersForSend_line (x := x) s.toHttpMessage keepAlive usingChunks
    exact HttpResponse.coherent_getFirstLine hs hline hversion

/-- **Whatever a program makes of a response, its line is coherent.** -/
theorem made_coherent {s : HttpResponse} (h : HttpResponse.Made x s) : HttpResponse.Coherent s := by
  have hnew : HttpResponse.Coherent {} := by
    rw [HttpResponse.coherent_iff]
    exact Or.inl rfl
  induction h with
  | new r => exact responseCall_coherent (x := x) hnew (.updateRequestInfo r)
  | copy _ ih =>
    rw [HttpResponse.coherent_iff] at ih ⊢
    exact ih
  | assign _ _ _ ih =>
    rw [HttpResponse.coherent_iff] at ih ⊢
    exact ih
  | call c _ ih => exact responseCall_coherent ih c

/-! ## Sequences of calls -/

/--
**The cached line is coherent** behind every sequence of calls on a response, its copies and
the responses it is assigned to, and behind every part of a sequence of calls on a request
exactly if none of them changes the resource to another one while a line is cached.
-/
theorem firstLine_coherent_iff (x : Externals) (urlEncode : Bytes → Bytes) :
    (∀ calls : List RequestCall,
      (∀ front back r, calls = front ++ back → afterRequestCalls x urlEncode .fresh front = some r →
        HttpRequest.Coherent r) ↔
      Throughout (requestStep x urlEncode) ClearsLine .fresh calls) ∧
    ∀ s, HttpResponse.Made x s → HttpResponse.Coherent s := by
  refine ⟨fun calls => ⟨?_, ?_⟩, fun s hs => made_coherent hs⟩
  · intro hall front c back r hcalls hr
    have hbefore := hall front (c :: back) r hcalls hr
    have hafter := hall (front ++ [c]) back (c.run x urlEncode r)
      (by rw [hcalls, List.append_assoc, List.singleton_append]) (exec_snoc.mpr ⟨r, hr, rfl⟩)
    cases c with
    | changeResource s =>
      by_cases hcached : r.firstLine = []
      · exact Or.inl hcached
      by_cases hs : s = r.resource
      · exact Or.inr hs
      · exact absurd hafter (changeResource_stale hbefore hcached hs)
    | _ => exact trivial
  · intro hall front back r hcalls hr
    have hfront : Throughout (requestStep x urlEncode) ClearsLine .fresh front := by
      intro u c v t hfront ht
      exact hall u c (v ++ back) t (by rw [hcalls, hfront, List.append_assoc, List.cons_append]) ht
    have hnew : HttpRequest.Coherent .fresh := by
      rw [HttpRequest.coherent_iff]
      exact Or.inl rfl
    refine exec_throughout HttpRequest.Coherent hnew ?_ hr hfront
    intro r c r' hr hc hstep
    rw [← Option.some.inj hstep]
    exact requestCall_coherent hr c hc

/-- The resource is changed behind a look at the line. -/
def staleCalls : List RequestCall := [.setResource (str "/a"), .getFirstLine, .changeResource (str "/b")]

theorem firstLine_stale :
    ∃ r, afterRequestCalls plainExternals id .fresh staleCalls = some r ∧
      r.getFirstLine.2 = str "GET /a HTTP/1.1" ∧ requestLine r = str "GET /b HTTP/1.1" ∧
      ¬ HttpRequest.Coherent r := by
  refine ⟨_, rfl, by decide, by decide, ?_⟩
  unfold HttpRequest.Coherent
  decide

end Pion.Proof
