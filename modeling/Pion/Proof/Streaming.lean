import Pion.Proof.Head

/-!
# Streaming and buffering

A payload handler is to see exactly the bytes that the content would have held.
`streaming_exact` says that it does, whatever the buffers look like, for a body
without trailers. With trailers the two modes part: `parse` returns true in front of
the first trailer when there is a payload handler, and the trailers are taken for the
beginning of the next request. `modes_agree_iff` is the comparison.
-/

namespace Pion.Proof

open Pion Lib

variable {x : Externals} {hook : Hook}

/-! ## The two modes on the same stream -/

/-- A parse that streams and a parse that buffers came to the same result. -/
structure ModesAgree (r r' : ParseResult) : Prop where
  rc : r.rc = r'.rc
  unread : r.unread = r'.unread
  headers : r.msg.headers.Perm r'.msg.headers
  data : r.parser.delivered = r'.msg.content

/-- Trailers are left unread, all of them. -/
theorem leftover_ne {b : Body} (h : b.trailers ≠ []) (rest : Bytes) : b.leftover ++ rest ≠ rest := by
  intro he
  have hnil : b.leftover = [] := List.append_left_eq_self.mp he
  unfold Body.leftover stringCrlf at hnil
  rw [if_neg h] at hnil
  exact absurd (List.append_eq_nil_iff.mp hnil).2 (List.cons_ne_nil _ _)

theorem request_headers (max : Nat) (m : HttpRequest) (f : Framing) :
    (f.request max m).headers = m.headers := by
  rcases f with _ | n | _
  · rfl
  · cases n <;> rfl
  · rfl

/-- **Streaming and buffering agree, but for trailers** and for forms that cannot be taken
apart, which only the buffering parser looks at. -/
theorem modes_agree_iff (p q : HttpParser) (hp : Unused p) (hq : Unused q) (k : PayloadHandler)
    (hk : p.payloadHandler = some k) (hcalm : NoThrow k) (hnone : q.payloadHandler = none)
    (head : Bytes) (s : HeaderState) (hhead : Accepts x head s) (body : Body) (hfit : body.Fits x s)
    (hmax : body.data.length ≤ q.maxContentLength) (rest : Bytes) :
    ModesAgree (parse x noHook p HttpRequest.fresh none (head ++ (body.text ++ rest)))
        (parse x noHook q HttpRequest.fresh none (head ++ (body.text ++ rest))) ↔
      body.trailers = [] ∧
        ¬ FormThrows x ((headRequest x s).getHeader headerContentType) body.data := by
  obtain ⟨hrc, _, hunread, hdata, hmsg⟩ := parse_streamed hp hhead hfit
    (hk ▸ noHook_hooked s body.framing) hcalm rest
  have hbuffered := parse_buffered hq hhead hfit (hnone ▸ noHook_hooked s body.framing) hmax
  have hheaders : (parse x noHook p HttpRequest.fresh none (head ++ (body.text ++ rest))).msg.headers =
      (headRequest x s).headers := by
    rw [hmsg]
    exact request_headers _ _ _
  constructor
  · intro h
    -- the parser that streams does not mind trailers that cannot be read
    have hread : ∀ l ∈ body.trailers, l.Readable := by
      by_contra hnot
      have hfalse := parse_unreadable hq hhead hfit (hnone ▸ noHook_hooked s body.framing) hmax hnot rest
      have hne := hrc.symm.trans (h.rc.trans hfalse)
      cases hne
    obtain ⟨hunread', _, _, hrc'⟩ := hbuffered hread rest
    -- trailers show in the read position: only one parser has passed them
    have htr : body.trailers = [] := by
      by_contra hne
      exact leftover_ne hne rest (hunread.symm.trans (h.unread.trans hunread'))
    have hthrow := hrc'.mp (h.rc.symm.trans hrc)
    rw [htr] at hthrow
    exact ⟨htr, hthrow⟩
  · rintro ⟨htr, hthrow⟩
    obtain ⟨hunread', hcontent, hheaders', hrc'⟩ :=
      hbuffered (fun l hl => by rw [htr] at hl; cases hl) rest
    rw [htr] at hheaders' hrc'
    refine ⟨hrc.trans (hrc'.mpr hthrow).symm, ?_, ?_, hdata.trans hcontent.symm⟩
    · rw [hunread, hunread', Body.leftover_nil htr, List.nil_append]
    · rw [hheaders, hheaders']
      exact List.Perm.refl _

/-- A payload handler that never throws. -/
def quietHandler : PayloadHandler where
  throws := fun _ _ => false

theorem quietHandler_calm : NoThrow quietHandler := fun _ _ => rfl

/-- The head of an upload in chunks. -/
def chunkedHead : Bytes := str "POST /u HTTP/1.1\r\nTransfer-Encoding: chunked\r\n\r\n"

/-- What the header loop makes of it. -/
def chunkedHeadState : HeaderState :=
  ({ headersParseState := .expectingFinalNewline, method := str "POST", resource := str "/u",
     headerName := str "Transfer-Encoding", headerValue := str "chunked" },
   { headers := [(str "Transfer-Encoding", str "chunked")] })

theorem chunkedHead_accepted : Accepts plainExternals chunkedHead chunkedHeadState := by
  unfold Accepts
  decide +kernel

theorem chunkedHead_framing :
    framing plainExternals (headRequest plainExternals chunkedHeadState) = some .chunked := by
  decide +kernel

/-- The sample body without its trailer. -/
def plainBody : ChunkedBody := { sampleBody with trailers := [] }

theorem plainBody_ok : plainBody.Ok :=
  ⟨sampleBody_ok.chunks, sampleBody_ok.last, fun l hl => by cases hl⟩

theorem plainBody_fits : (Body.chunked plainBody).Fits plainExternals chunkedHeadState :=
  ⟨chunkedHead_framing, plainBody_ok, fun h => absurd rfl h⟩

theorem sampleBody_fits : (Body.chunked sampleBody).Fits plainExternals chunkedHeadState :=
  ⟨chunkedHead_framing, sampleBody_ok, fun _ => by decide +kernel⟩

/-- A parser with a payload handler set. -/
def streamParser : HttpParser := { HttpParser.fresh 100 0 0 with payloadHandler := some quietHandler }

theorem modes_agree_iff_plain :
    ModesAgree
      (parse plainExternals noHook streamParser HttpRequest.fresh none
        (chunkedHead ++ ((Body.chunked plainBody).text ++ str "GET")))
      (parse plainExternals noHook (HttpParser.fresh 100 0 0) HttpRequest.fresh none
        (chunkedHead ++ ((Body.chunked plainBody).text ++ str "GET"))) := by
  refine (modes_agree_iff streamParser (HttpParser.fresh 100 0 0) ⟨rfl, rfl, rfl, rfl, rfl⟩
    (fresh_unused 100 0 0) quietHandler rfl quietHandler_calm rfl chunkedHead chunkedHeadState
    chunkedHead_accepted (.chunked plainBody) plainBody_fits (by decide) (str "GET")).mpr ⟨rfl, ?_⟩
  intro h
  exact absurd h.2.1 (by decide +kernel)

/-- With a trailer, the parser that streams stops in front of it. -/
theorem modes_agree_trailer :
    Accepts plainExternals chunkedHead chunkedHeadState ∧
      (Body.chunked sampleBody).Fits plainExternals chunkedHeadState ∧
      ¬ ModesAgree
        (parse plainExternals noHook streamParser HttpRequest.fresh none
          (chunkedHead ++ ((Body.chunked sampleBody).text ++ [])))
        (parse plainExternals noHook (HttpParser.fresh 100 0 0) HttpRequest.fresh none
          (chunkedHead ++ ((Body.chunked sampleBody).text ++ []))) := by
  refine ⟨chunkedHead_accepted, sampleBody_fits, fun h => ?_⟩
  exact absurd h.unread (by decide +kernel)

/-! ## Any split of the stream -/

/-- A parser that has been given no buffer yet. -/
def idle (p : HttpParser) : ParseResult where
  parser := p
  msg := HttpRequest.fresh
  ec := none
  unread := []
  rc := .ok .indeterminate

theorem feed_idle (hh : CalmHook hook) {p : HttpParser} (hp : Calm p.toChunkFields) {bufs : List Bytes}
    (hbufs : ∀ b ∈ bufs, b ≠ []) (hne : bufs.flatten ≠ []) :
    SameResult (feed x hook (idle p) bufs) (parse x hook p HttpRequest.fresh none bufs.flatten) := by
  cases bufs with
  | nil => exact absurd rfl hne
  | cons b bs =>
    rw [feed, if_pos (show (idle p).rc = .ok .indeterminate from rfl), List.flatten_cons]
    exact feed_append hh bs (fun c hc => hbufs c (List.mem_cons_of_mem b hc)) p HttpRequest.fresh none b
      hp (hbufs b List.mem_cons_self)

/-- A parser that is finished with `a ++ b`, and has used all of it, is waiting behind `a`. -/
theorem parse_waits (hh : CalmHook hook) {p : HttpParser} (hp : Calm p.toChunkFields)
    (m : HttpRequest) (ec : Option ErrorValue) {a b : Bytes} (ha : a ≠ []) (hb : b ≠ [])
    (h : (parse x hook p m ec (a ++ b)).unread = []) :
    (parse x hook p m ec a).rc = .ok .indeterminate := by
  by_contra hne
  rw [(parse_split hh hp m ec ha hb).2 hne] at h
  exact hb (List.append_eq_nil_iff.mp h).2

/-- A parser that is finished with `a` does not look at what stands behind it. -/
theorem parse_extend (hh : CalmHook hook) {p : HttpParser} (hp : Calm p.toChunkFields)
    (m : HttpRequest) (ec : Option ErrorValue) {a : Bytes} (ha : a ≠ [])
    (h : (parse x hook p m ec a).rc ≠ .ok .indeterminate) (b : Bytes) :
    parse x hook p m ec (a ++ b) =
      { parse x hook p m ec a with unread := (parse x hook p m ec a).unread ++ b } := by
  cases b with
  | nil => rw [List.append_nil, List.append_nil]
  | cons c cs => exact (parse_split hh hp m ec ha (List.cons_ne_nil c cs)).2 h

/-- **Streaming delivery is exact.** However the stream is split into buffers, the payload
handler that the hook sets behind the headers is given the data of the body, `parse` returns
true at the last byte of the body, not earlier, and the bytes behind it stay unread. -/
theorem streaming_exact (hh : CalmHook hook) (max i j : Nat) (head : Bytes) (s : HeaderState)
    (hhead : Accepts x head s) (body : Body) (hfit : body.Fits x s) (htr : body.trailers = [])
    (k : PayloadHandler) (hk : Hooked x hook (HttpParser.fresh max i j) s body.framing (some k)) :
    (∀ (bufs : List Bytes) (rest : Bytes), (∀ b ∈ bufs, b ≠ []) →
      bufs.flatten = head ++ (body.text ++ rest) →
      let r := feed x hook (idle (HttpParser.fresh max i j)) bufs
      r.rc = .ok .true ∧ r.parser.delivered = body.data ∧ r.unread = rest) ∧
    (∀ (bufs : List Bytes) (b : Bytes), (∀ b ∈ bufs, b ≠ []) → b ≠ [] →
      bufs.flatten ++ b = head ++ body.text →
      (feed x hook (idle (HttpParser.fresh max i j)) bufs).rc = .ok .indeterminate) := by
  let p := HttpParser.fresh max i j
  have hp : Calm p.toChunkFields := fresh_calm max i j
  have hcalm : NoThrow k := by
    obtain ⟨r, hr, _, hrk⟩ := hk
    exact calm_orElse hp (hh _ _ _ r hr) k hrk
  have hne : head ≠ [] := by
    rintro rfl
    cases hhead
  have hwhole := fun rest => parse_streamed (fresh_unused max i j) hhead hfit hk hcalm rest
  constructor
  · intro bufs rest hbufs hflat
    have hsame := feed_idle (x := x) hh hp hbufs
      (by rw [hflat]; exact fun h => hne (List.append_eq_nil_iff.mp h).1)
    obtain ⟨hrc, _, hunread, hdata, _⟩ := hwhole rest
    rw [hflat] at hsame
    rw [Body.leftover_nil htr] at hunread
    exact ⟨hsame.rc.trans hrc, hsame.delivered.trans hdata, hsame.unread.trans hunread⟩
  · intro bufs b hbufs hb hflat
    by_cases ha : bufs.flatten = []
    · -- no buffer has been read
      cases bufs with
      | nil => rfl
      | cons c cs => exact absurd (List.append_eq_nil_iff.mp ha).1 (hbufs c List.mem_cons_self)
    · obtain ⟨_, _, hunread, _⟩ := hwhole []
      rw [Body.leftover_nil htr, List.append_nil, ← hflat] at hunread
      exact (feed_idle hh hp hbufs ha).rc.trans (parse_waits hh hp _ _ ha hb hunread)

/-- A hook that sets a payload handler and leaves the result code as it is. -/
def installHook (k : PayloadHandler) : Hook := fun _ _ rc => .ok { rc := rc, payloadHandler := some k }

theorem installHook_calm {k : PayloadHandler} (hk : NoThrow k) : CalmHook (installHook k) := by
  intro m ec rc r hr k' hk'
  injection hr with hr
  rw [← hr] at hk'
  injection hk' with he
  exact he ▸ hk

theorem streaming_exact_plain :
    let r := feed plainExternals (installHook quietHandler) (idle (HttpParser.fresh 1 0 0))
      [str "POST /u HTTP/1.1\r\nTransfer-Enco", str "ding: chunked\r\n\r", str "\n03;q\r\n\r",
        str "\n0\r\n0\r", str "\n\r\nGET"]
    r.rc = .ok .true ∧ r.parser.delivered = str "\r\n0" ∧ r.unread = str "GET" :=
  (streaming_exact (installHook_calm quietHandler_calm) 1 0 0 chunkedHead chunkedHeadState
    chunkedHead_accepted (.chunked plainBody) plainBody_fits rfl quietHandler
    ⟨_, rfl, rfl, rfl⟩).1 _ (str "GET") (by decide) (by decide +kernel)

end Pion.Proof
