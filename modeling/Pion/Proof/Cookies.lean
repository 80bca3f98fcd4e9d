import Pion.MessageCalls
import Pion.Proof.CookieHeader
import Pion.Proof.ResponseBody

/-!
# Cookies of a response

A response has two ways to a cookie. `set_cookie` adds a `Set-Cookie` header. `add_cookie`
and `change_cookie` go to a multimap of their own, which `append_cookie_headers` should turn
into headers when the response is sent. But `prepare_buffers_for_send` is a function of the
base class, and so is the `append_cookie_headers` it calls: an empty one, which those of the
subclasses do not override. The copy operations leave the multimap out, too.

So a cookie of the multimap is on the wire exactly if the same cookie was set in the other
way, and this is what `cookies_sent_iff` says.
-/

namespace Pion.Proof

open Pion Lib

variable {x : Externals}

/-! ## Sending leaves `Set-Cookie` headers alone -/

theorem mem_replace_other {d : Dict} {key value : Bytes} {e : Bytes × Bytes}
    (hne : iequals e.1 key = false) : e ∈ d.replace key value ↔ e ∈ d := by
  induction d with
  | nil => exact Iff.rfl
  | cons f d ih =>
    unfold Dict.replace
    split
    · rename_i hf
      have hef : e ≠ f := by
        rintro rfl
        rw [hne] at hf
        cases hf
      have hev : e ≠ (f.1, value) := by
        rintro rfl
        rw [hne] at hf
        cases hf
      simp only [List.mem_cons, List.mem_filter, hef, hev, false_or, hne, Bool.not_false, and_true]
    · rw [List.mem_cons, List.mem_cons, ih]

/-- `change_value` leaves the entries of other keys alone. -/
theorem mem_changeValue_other {d : Dict} {key value : Bytes} {e : Bytes × Bytes}
    (hne : iequals e.1 key = false) : e ∈ d.changeValue x key value ↔ e ∈ d := by
  unfold Dict.changeValue
  split
  · rw [(x.insert_perm d (key, value)).mem_iff, List.mem_cons, or_iff_right]
    rintro rfl
    rw [iequals_refl] at hne
    cases hne
  · exact mem_replace_other hne

/-- A header that `parse_cookie_header` should be given. -/
def SetsCookie (e : Bytes × Bytes) : Prop := iequals e.1 headerSetCookie = true

theorem SetsCookie.ne {e : Bytes × Bytes} (h : SetsCookie e) {key : Bytes}
    (hkey : iequals headerSetCookie key = false) : iequals e.1 key = false := by
  unfold SetsCookie iequals at h
  unfold iequals at hkey ⊢
  rw [beq_iff_eq.mp h]
  exact hkey

theorem mem_prepareHeadersForSend {m : HttpMessage} {e : Bytes × Bytes} (he : SetsCookie e)
    (keepAlive usingChunks : Bool) :
    e ∈ (m.prepareHeadersForSend x keepAlive usingChunks).headers ↔ e ∈ m.headers := by
  have hconn : iequals e.1 headerConnection = false := he.ne (by decide)
  have hte : iequals e.1 headerTransferEncoding = false := he.ne (by decide)
  have hcl : iequals e.1 headerContentLength = false := he.ne (by decide)
  unfold HttpMessage.prepareHeadersForSend
  dsimp only
  generalize (if keepAlive then str "Keep-Alive" else str "close") = connection
  split
  · split
    · exact (mem_changeValue_other hte).trans (mem_changeValue_other hconn)
    · exact mem_changeValue_other hconn
  · split
    · exact (mem_changeValue_other hcl).trans (mem_changeValue_other hconn)
    · exact mem_changeValue_other hconn

/-! ## The header block -/

/-- The buffers of a header. -/
def headerBuffers (e : Bytes × Bytes) : List Bytes := [e.1, headerNameValueDelimiter, e.2, stringCrlf]

/-- The buffers of a header block: its first line, its headers and an empty line. -/
def blockBuffers (line : Bytes) (d : Dict) : List Bytes :=
  [line, stringCrlf] ++ ((d.map headerBuffers).flatten ++ [stringCrlf])

/-- The header is one of a block. -/
def HasHeader (block : List Bytes) (e : Bytes × Bytes) : Prop :=
  ∃ line d, block = blockBuffers line d ∧ e ∈ d

theorem headerBuffers_injective : ∀ d d' : Dict,
    (d.map headerBuffers).flatten = (d'.map headerBuffers).flatten → d = d' := by
  intro d
  induction d with
  | nil =>
    intro d' h
    cases d' with
    | nil => rfl
    | cons e d' => cases h
  | cons e d ih =>
    intro d' h
    cases d' with
    | nil => cases h
    | cons e' d' =>
      simp only [List.map_cons, List.flatten_cons, headerBuffers, List.cons_append, List.nil_append,
        List.cons.injEq, true_and] at h
      rw [Prod.ext h.1 h.2.1, ih d' h.2.2]

/-- **A block can be taken apart in one way only.** -/
theorem hasHeader_iff {line : Bytes} {d : Dict} {e : Bytes × Bytes} :
    HasHeader (blockBuffers line d) e ↔ e ∈ d := by
  constructor
  · rintro ⟨line', d', hblock, he⟩
    unfold blockBuffers at hblock
    have hback := (List.append_inj hblock rfl).2
    rw [headerBuffers_injective d d' (List.append_cancel_right hback)]
    exact he
  · intro he
    exact ⟨line, d, rfl, he⟩

/-- **What a response sends of its `Set-Cookie` headers**: these, and no others. -/
theorem hasHeader_sent (s : HttpResponse) {e : Bytes × Bytes} (he : SetsCookie e)
    (keepAlive usingChunks : Bool) :
    HasHeader (s.prepareBuffersForSend x keepAlive usingChunks).2 e ↔ e ∈ s.headers := by
  have hblock : (s.prepareBuffersForSend x keepAlive usingChunks).2 =
      blockBuffers (s.prepareBuffersForSend x keepAlive usingChunks).1.firstLine
        (s.prepareHeadersForSend x keepAlive usingChunks).headers := by
    unfold HttpResponse.prepareBuffersForSend HttpMessage.prepareBuffersForSend
    dsimp only
    rw [getFirstLine_frame]
    rfl
  rw [hblock, hasHeader_iff, mem_prepareHeadersForSend he]

/-! ## Cookies -/

/-- The value of a `Set-Cookie` header is taken apart into exactly this cookie. -/
def Decodes (x : Externals) (value : Bytes) (cookie : Bytes × Bytes) : Prop :=
  parseCookieHeader x [] value true = ([cookie], true)

/-- A header of the block sets the cookie. -/
def SendsCookie (x : Externals) (block : List Bytes) (cookie : Bytes × Bytes) : Prop :=
  ∃ e, HasHeader block e ∧ SetsCookie e ∧ Decodes x e.2 cookie

/-- A header of the response sets the cookie. -/
def SetsAlready (x : Externals) (d : Dict) (cookie : Bytes × Bytes) : Prop :=
  ∃ e ∈ d, SetsCookie e ∧ Decodes x e.2 cookie

theorem sendsCookie_iff (s : HttpResponse) (keepAlive usingChunks : Bool) (cookie : Bytes × Bytes) :
    SendsCookie x (s.prepareBuffersForSend x keepAlive usingChunks).2 cookie ↔
      SetsAlready x s.headers cookie := by
  constructor
  · rintro ⟨e, hsent, hset, hdec⟩
    exact ⟨e, (hasHeader_sent s hset keepAlive usingChunks).mp hsent, hset, hdec⟩
  · rintro ⟨e, he, hset, hdec⟩
    exact ⟨e, (hasHeader_sent s hset keepAlive usingChunks).mpr he, hset, hdec⟩

/-! ## The cookies of the multimap -/

/-- `add_cookie` and `change_cookie`. -/
inductive CookieCall where
  | add (name value : Bytes)
  | change (name value : Bytes)

def CookieCall.run (x : Externals) (s : HttpResponse) : CookieCall → HttpResponse
  | add name value => { s with toHttpMessage := s.addCookie x name value }
  | change name value => { s with toHttpMessage := s.changeCookie x name value }

/-- A response behind some calls. -/
def afterCookies (x : Externals) (s : HttpResponse) (calls : List CookieCall) : HttpResponse :=
  calls.foldl (CookieCall.run x) s

/-- Cookies are kept apart from headers. -/
theorem afterCookies_headers (s : HttpResponse) (calls : List CookieCall) :
    (afterCookies x s calls).headers = s.headers := by
  unfold afterCookies
  induction calls generalizing s with
  | nil => rfl
  | cons c calls ih =>
    rw [List.foldl_cons, ih]
    cases c with
    | add => rfl
    | change => rfl

/--
**Which cookies reach the wire.** Each cookie in the multimap of a response is in the header
block of the response, of its copies and of the responses it is assigned to, if and only if
each of them is already set by a header that the response had.
-/
theorem cookies_sent_iff (x : Externals) (s : HttpResponse) (calls : List CookieCall)
    (keepAlive usingChunks : Bool) :
    let r := afterCookies x s calls
    (∀ cookie ∈ r.cookieParams,
      SendsCookie x (r.prepareBuffersForSend x keepAlive usingChunks).2 cookie ∧
      SendsCookie x (r.copy.prepareBuffersForSend x keepAlive usingChunks).2 cookie ∧
      ∀ target : HttpResponse,
        SendsCookie x ((target.assign r).prepareBuffersForSend x keepAlive usingChunks).2 cookie) ↔
    ∀ cookie ∈ r.cookieParams, SetsAlready x s.headers cookie := by
  intro r
  have hheaders : r.headers = s.headers := afterCookies_headers s calls
  constructor
  · intro h cookie hc
    rw [← hheaders]
    exact (sendsCookie_iff r keepAlive usingChunks cookie).mp (h cookie hc).1
  · intro h cookie hc
    have hset : SetsAlready x r.headers cookie := hheaders ▸ h cookie hc
    exact ⟨(sendsCookie_iff r keepAlive usingChunks cookie).mpr hset,
      (sendsCookie_iff r.copy keepAlive usingChunks cookie).mpr hset,
      fun target => (sendsCookie_iff (target.assign r) keepAlive usingChunks cookie).mpr hset⟩

/-- A new response to which a cookie was added. -/
def cookieResponse : HttpResponse := afterCookies plainExternals {} [.add (str "id") (str "7")]

theorem cookies_not_sent :
    cookieResponse.cookieParams = [(str "id", str "7")] ∧
      ¬ SendsCookie plainExternals
        (cookieResponse.prepareBuffersForSend plainExternals true false).2 (str "id", str "7") ∧
      ¬ SendsCookie plainExternals
        (cookieResponse.copy.prepareBuffersForSend plainExternals true false).2 (str "id", str "7") := by
  refine ⟨rfl, ?_, ?_⟩
  · rw [sendsCookie_iff]
    rintro ⟨e, he, _⟩
    cases he
  · rw [sendsCookie_iff]
    rintro ⟨e, he, _⟩
    cases he

end Pion.Proof
