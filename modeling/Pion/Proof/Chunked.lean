import Pion.Proof.ChunkRun
import Pion.Proof.Forms

/-!
# A buffered chunked body

What `parse` makes of a whole chunked body when no payload handler is set: the
data of the chunks becomes the content, and the trailers join the headers.

The body is then looked at once more. A posted form is taken apart into query
parameters, and here there is a way to fail: a form field whose boundary follows
right behind the field's headers is assigned a negative length, and
`std::length_error` leaves `parse` instead of a result. In front of that, a
trailer may be refused whose value stands right behind the colon, if it begins
with a byte that no name may have. `parse_chunked_iff` says that nothing else can
go wrong.
-/

namespace Pion.Proof

open Pion Lib

variable {x : Externals} {hook : Hook}

/-! ## Posted forms -/

/-- The body is a posted form, by its content type, on which `parse_multipart_form_data` throws. -/
def FormThrows (x : Externals) (contentType data : Bytes) : Prop :=
  contentTypeUrlencoded.isPrefixOf contentType = false ∧
    contentTypeMultipartFormData.isPrefixOf contentType = true ∧
    ∃ e, (parseMultipartFormData x [] contentType data).2 = .error e

theorem parsePostContent_throws (m : HttpRequest) :
    (parsePostContent x m).2 ≠ none ↔ FormThrows x (m.getHeader headerContentType) m.content := by
  unfold parsePostContent FormThrows
  dsimp only
  split
  · rename_i h
    refine ⟨fun hn => absurd rfl hn, fun hf => ?_⟩
    rw [hf.1] at h
    cases h
  · rename_i h
    split
    · rename_i h'
      rw [← (parseMultipartFormData_base m.queryParams _ _).1]
      cases (parseMultipartFormData x m.queryParams (m.getHeader headerContentType) m.content).2 with
      | ok b =>
        refine ⟨fun hn => absurd rfl hn, fun hf => ?_⟩
        obtain ⟨e, he⟩ := hf.2.2
        cases he
      | error e =>
        exact ⟨fun _ => ⟨Bool.eq_false_iff.mpr h, h', e, rfl⟩, fun _ hn => by cases hn⟩
    · rename_i h'
      refine ⟨fun hn => absurd rfl hn, fun hf => absurd hf.2.1 h'⟩

/-- Taking a form apart changes nothing but the query parameters. -/
theorem parsePostContent_frame (m : HttpRequest) :
    (parsePostContent x m).1 = { m with queryParams := (parsePostContent x m).1.queryParams } := by
  unfold parsePostContent
  dsimp only
  split
  · rfl
  · split
    · rfl
    · rfl

/-! ## The end of a parse -/

/-- `finish` throws for this message. -/
def FinishThrows (x : Externals) (p : HttpParser) (m : HttpRequest) : Prop :=
  p.payloadHandler = none ∧ p.parseHeadersOnly = false ∧
    FormThrows x (m.getHeader headerContentType) m.content

/-- What `finish` leaves of a message that is complete. -/
def Concluded (m m' : HttpRequest) : Prop :=
  m' = { m with isValid := true, status := m'.status, queryParams := m'.queryParams }

theorem finish_end (p : HttpParser) (m : HttpRequest) :
    finish x { p with messageParseState := .end } m =
      if p.payloadHandler.isNone ∧ !p.parseHeadersOnly then
        parsePostContent x (computeMsgStatus { m with isValid := true } true)
      else (computeMsgStatus { m with isValid := true } true, none) := rfl

theorem finish_concluded (p : HttpParser) (m : HttpRequest) :
    Concluded m (finish x { p with messageParseState := .end } m).1 := by
  rw [finish_end]
  split
  · unfold Concluded
    rw [parsePostContent_frame]
    rfl
  · rfl

theorem finish_throws (p : HttpParser) (m : HttpRequest) :
    (finish x { p with messageParseState := .end } m).2 ≠ none ↔ FinishThrows x p m := by
  have hform := parsePostContent_throws (x := x) (computeMsgStatus { m with isValid := true } true)
  rw [finish_end]
  unfold FinishThrows
  split
  · rename_i h
    have h1 : p.payloadHandler = none := Option.isNone_iff_eq_none.mp h.1
    have h2 : p.parseHeadersOnly = false := by simpa using h.2
    exact hform.trans ⟨fun hf => ⟨h1, h2, hf⟩, fun hf => hf.2.2⟩
  · rename_i h
    refine ⟨fun hn => absurd rfl hn, fun hf => absurd ?_ h⟩
    rw [hf.1, hf.2.1]
    exact ⟨rfl, rfl⟩

/-- **How a parse ends** when its loop has come to the end of the message. -/
theorem parseEnd_true (g : Progress) (t : Nat) :
    let r := parseEnd x g t (.ok .true)
    r.unread = g.unread ∧ r.ec = g.ec ∧ r.parser.toChunkFields = g.parser.toChunkFields ∧
      Concluded g.msg r.msg ∧ (r.rc = .ok .true ↔ ¬ FinishThrows x g.parser g.msg) := by
  have hmsg := finish_concluded (x := x) g.parser g.msg
  have hthrow := finish_throws (x := x) g.parser g.msg
  unfold parseEnd
  dsimp only
  generalize finish x { g.parser with messageParseState := .end } g.msg = f at hmsg hthrow ⊢
  obtain ⟨m, e⟩ := f
  cases e with
  | none => exact ⟨rfl, rfl, rfl, hmsg, fun _ hf => hthrow.mpr hf rfl, fun _ => rfl⟩
  | some e =>
    have hf : FinishThrows x g.parser g.msg := hthrow.mp (fun hn => by cases hn)
    exact ⟨rfl, rfl, rfl, hmsg, fun h => (by cases h), fun h => absurd hf h⟩

/-! ## The chunk phase -/

theorem parseChunks_done {g : Progress} {s : ChunkState} {rest : Bytes}
    (h : chunkScanner.run (g.parser.toChunkFields, g.msg.chunkCache) g.unread = .stop .done s rest) :
    parseChunks g = ({ g with
      parser := { g.parser with toChunkFields := s.1 }.accountContent (g.unread.length - rest.length)
      msg := { g.msg with chunkCache := s.2 }
      unread := rest }, some .true) := by
  unfold parseChunks
  dsimp only
  rw [h]
  rfl

theorem parseChunks_footers {g : Progress} {s : ChunkState} {rest : Bytes}
    (h : chunkScanner.run (g.parser.toChunkFields, g.msg.chunkCache) g.unread = .stop .footers s rest) :
    parseChunks g = ({ g with
      parser := { g.parser with
        toChunkFields := s.1, messageParseState := .footers, headersParseState := .headerStart
        }.accountContent (g.unread.length - rest.length)
      msg := { g.msg with chunkCache := s.2 }
      unread := rest }, some .true) := by
  unfold parseChunks
  dsimp only
  rw [h]
  rfl

theorem parseChunksCase_buffered {g g₁ : Progress} (rc : Tribool)
    (h : parseChunks g = (g₁, some .true)) (hk : g₁.parser.payloadHandler = none)
    (hrc : (if g₁.parser.messageParseState = .footers then .indeterminate else .true) = rc) (t : Nat) :
    parseChunksCase g t =
      ({ g₁ with msg := { g₁.msg with toHttpMessage := g₁.msg.concatenateChunks } },
        t + g₁.parser.bytesLastRead, .ok rc) := by
  unfold parseChunksCase
  rw [h, ← hrc]
  exact if_pos ⟨rfl, by rw [hk]; rfl⟩

theorem parseChunksCase_streamed {g g₁ : Progress} (h : parseChunks g = (g₁, some .true))
    (hk : g₁.parser.payloadHandler ≠ none) (t : Nat) :
    parseChunksCase g t = (g₁, t + g₁.parser.bytesLastRead, .ok .true) := by
  unfold parseChunksCase
  rw [h]
  exact if_neg (fun hn => hk (Option.isNone_iff_eq_none.mp hn.2))

theorem parseHeadersCase_footers {g g₁ : Progress} (h : parseHeaders x g = (g₁, .true))
    (hst : g₁.parser.messageParseState = .footers) (t : Nat) :
    parseHeadersCase x hook g t = (g₁, t + g₁.parser.bytesLastRead, .ok .true) := by
  unfold parseHeadersCase
  rw [h]
  refine if_neg (fun hn => ?_)
  rw [show g₁.parser.messageParseState = _ from hst] at hn
  cases hn.2

theorem atChunk_self {s : ChunkState} (h : s.1.chunkedContentParseState = .chunkSizeStart) :
    atChunk s = s := by
  obtain ⟨p, cache⟩ := s
  unfold atChunk
  dsimp only at h ⊢
  rw [← h]

/-- The message that a buffered chunked body makes of `m`. -/
def withBody (x : Externals) (m : HttpRequest) (b : ChunkedBody) : HttpRequest :=
  { m with chunkCache := b.data, contentLength := b.data.length, contentBuf := b.data,
           headers := addHeaders x m.headers b.trailers }

/-- Where the loop of `parse` stands at the end of a buffered chunked body. -/
structure BodyRead (x : Externals) (g : Progress) (b : ChunkedBody) (rest : Bytes) (g' : Progress) :
    Prop where
  unread : g'.unread = rest
  ec : g'.ec = g.ec
  handler : g'.parser.payloadHandler = none
  headersOnly : g'.parser.parseHeadersOnly = g.parser.parseHeadersOnly
  msg : g'.msg = withBody x g.msg b

/-- Where the loop of `parse` stands in front of the trailers of a buffered chunked body. -/
structure AtTrailers (g : Progress) (b : ChunkedBody) (rest : Bytes) (g' : Progress) : Prop where
  unread : g'.unread = headerText b.trailers ++ stringCrlf ++ rest
  ec : g'.ec = g.ec
  handler : g'.parser.payloadHandler = none
  headersOnly : g'.parser.parseHeadersOnly = g.parser.parseHeadersOnly
  state : g'.parser.messageParseState = .footers
  headersState : g'.parser.headersParseState = .headerStart
  msg : g'.msg = { g.msg with chunkCache := b.data, contentLength := b.data.length, contentBuf := b.data }

theorem AtTrailers.start {g g' : Progress} {b : ChunkedBody} {rest : Bytes} (h : AtTrailers g b rest g') :
    { g'.parser.toHeaderFields with headersParseState := .headerStart } = g'.parser.toHeaderFields := by
  rw [← h.headersState]

theorem AtTrailers.unread_ne {g g' : Progress} {b : ChunkedBody} {rest : Bytes} (h : AtTrailers g b rest g') :
    g'.unread ≠ [] := by
  rw [h.unread]
  simp

theorem AtTrailers.version_ne {g g' : Progress} {b : ChunkedBody} {rest : Bytes} (h : AtTrailers g b rest g')
    (hversion : g.msg.versionMajor ≠ 0) : g'.msg.versionMajor ≠ 0 := by
  rw [h.msg]
  exact hversion

/-- In front of the first chunk, with an empty cache. -/
theorem beforeChunks {g : Progress} {n : Nat} (hcst : g.parser.chunkedContentParseState = .chunkSizeStart)
    (hcache : g.msg.chunkCache = []) (hmax : n ≤ g.parser.maxContentLength) :
    atChunk (g.parser.toChunkFields, []) = (g.parser.toChunkFields, g.msg.chunkCache) ∧
      Room (g.parser.toChunkFields, []) n := by
  refine ⟨?_, fun _ => ?_⟩
  · rw [atChunk_self (s := (g.parser.toChunkFields, [])) hcst, hcache]
  · show 0 + n ≤ g.parser.maxContentLength
    omega

/-- Without a payload handler, the data is in the cache. -/
theorem Absorbed.buffered {p : ChunkFields} {data : Bytes} {u : ChunkState} (h : Absorbed (p, []) data u)
    (hk : p.payloadHandler = none) : u.2 = data := by
  rw [h.cache, absorb_cache (s := (p, [])) hk]
  rfl

section chunks

variable {b : ChunkedBody} (hb : b.Ok) {g : Progress} {rest : Bytes}
  (hst : g.parser.messageParseState = .chunks) (hcst : g.parser.chunkedContentParseState = .chunkSizeStart)
  (hk : g.parser.payloadHandler = none) (hcache : g.msg.chunkCache = [])
  (hmax : b.data.length ≤ g.parser.maxContentLength) (hunread : g.unread = b.text ++ rest)
include hb hst hcst hk hcache hmax hunread

/-- **One pass for the chunks**, if there are no trailers behind them. -/
theorem parseSwitch_chunked (x : Externals) (hook : Hook) (htr : b.trailers = []) (t : Nat) :
    ∃ g' t', parseSwitch x hook g t = (g', t', .ok .true) ∧ BodyRead x g b rest g' := by
  obtain ⟨hs, hroom⟩ := beforeChunks hcst hcache hmax
  obtain ⟨u, hu, hrun⟩ := readChunkedBody_done hb htr (calm_none hk) hroom rest
  rw [hs, ← hunread] at hrun
  have huk : u.1.payloadHandler = none := hu.frame.1.trans hk
  have huc : u.2 = b.data := hu.buffered hk
  have hcase := parseChunksCase_buffered .true (parseChunks_done hrun) huk
    (if_neg (by show g.parser.messageParseState ≠ _; rw [hst]; decide)) t
  refine ⟨_, _, (parseSwitch_chunks hst t).trans hcase, rfl, rfl, huk, rfl, ?_⟩
  unfold withBody HttpMessage.concatenateChunks
  rw [htr, ← huc]
  rfl

/-- With trailers, the pass for the chunks stops in front of them. -/
theorem parseSwitch_trailers (x : Externals) (hook : Hook) (htr : b.trailers ≠ []) (t : Nat) :
    ∃ g' t', parseSwitch x hook g t = (g', t', .ok .indeterminate) ∧ AtTrailers g b rest g' := by
  obtain ⟨hs, hroom⟩ := beforeChunks hcst hcache hmax
  obtain ⟨u, hu, hrun⟩ := readChunkedBody_footers hb htr (calm_none hk) hroom rest
  rw [hs, ← hunread] at hrun
  have huk : (atEnd u).1.payloadHandler = none := hu.frame.1.trans hk
  have huc : u.2 = b.data := hu.buffered hk
  have hcase := parseChunksCase_buffered .indeterminate (parseChunks_footers hrun) huk (if_pos rfl) t
  refine ⟨_, _, (parseSwitch_chunks hst t).trans hcase, rfl, rfl, huk, rfl, rfl, rfl, ?_⟩
  rw [← huc]
  rfl

/-- **The loop of `parse` over a buffered chunked body**: one pass for the chunks, and one
for the trailers if there are any. -/
theorem parseLoop_chunked (x : Externals) (hook : Hook) (hver : b.trailers ≠ [] → g.msg.versionMajor ≠ 0)
    (hread : ∀ l ∈ b.trailers, l.Readable) (n t : Nat) :
    ∃ g' t', parseLoop x hook (n + 2) g t = (g', t', .ok .true) ∧ BodyRead x g b rest g' := by
  by_cases htr : b.trailers = []
  · obtain ⟨g', t', hpass, hbody⟩ := parseSwitch_chunked hb hst hcst hk hcache hmax hunread x hook htr t
    exact ⟨g', t', parseLoop_done hpass (fun h => by cases h) (n + 1), hbody⟩
  · obtain ⟨g₁, t₁, hpass, hat⟩ := parseSwitch_trailers hb hst hcst hk hcache hmax hunread x hook htr t
    rw [parseLoop_next hpass hat.unread_ne (n + 1)]
    -- the trailers are read by the header loop
    have htrail := readHeaders (x := x) b.trailers g₁.parser.toHeaderFields g₁.msg hread
      (hat.version_ne (hver htr)) rest
    rw [hat.start, ← hat.unread] at htrail
    have hdone := (@parseSwitch_footers x hook g₁ hat.state t₁).trans
      (parseHeadersCase_footers (parseHeaders_done htrail) hat.state t₁)
    refine ⟨_, _, parseLoop_done hdone (fun h => by cases h) n, rfl, hat.ec, hat.handler, hat.headersOnly, ?_⟩
    unfold withBody
    dsimp only
    rw [hat.msg]

/-- A trailer that is well formed and not readable ends the loop. -/
theorem parseLoop_unreadable (x : Externals) (hook : Hook) (hver : b.trailers ≠ [] → g.msg.versionMajor ≠ 0)
    (hnot : ¬ ∀ l ∈ b.trailers, l.Readable) (n t : Nat) :
    ∃ g' t', parseLoop x hook (n + 2) g t = (g', t', .ok .false) := by
  have htr : b.trailers ≠ [] := fun hnil => hnot fun l hl => by rw [hnil] at hl; cases hl
  obtain ⟨g₁, t₁, hpass, hat⟩ := parseSwitch_trailers hb hst hcst hk hcache hmax hunread x hook htr t
  rw [parseLoop_next hpass hat.unread_ne (n + 1)]
  obtain ⟨s, left, hstop⟩ := refusesHeaders (x := x) b.trailers g₁.parser.toHeaderFields g₁.msg hb.trailers
    hnot (hat.version_ne (hver htr)) rest
  rw [hat.start, ← hat.unread] at hstop
  have herror := (@parseSwitch_footers x hook g₁ hat.state t₁).trans (parseHeadersCase_error hstop t₁)
  exact ⟨_, _, parseLoop_done herror (fun h => by cases h) n⟩

end chunks

theorem noteMissingPackets_frame (m : HttpRequest) :
    noteMissingPackets m = { m with hasDataAfterMissing := (noteMissingPackets m).hasDataAfterMissing } := by
  unfold noteMissingPackets
  split <;> rfl

theorem withBody_content (m : HttpRequest) (b : ChunkedBody) : (withBody x m b).content = b.data := by
  show b.data.take b.data.length = b.data
  exact List.take_length

/-- A parser and its message behind the headers of a request that announced chunks, with no
payload handler set. -/
structure AwaitingChunks (p : HttpParser) (m : HttpRequest) : Prop where
  state : p.messageParseState = .chunks
  chunkState : p.chunkedContentParseState = .chunkSizeStart
  handler : p.payloadHandler = none
  cache : m.chunkCache = []
  version : 1 ≤ m.versionMajor

theorem AwaitingChunks.version_ne {p : HttpParser} {m : HttpRequest} (h : AwaitingChunks p m) :
    m.versionMajor ≠ 0 := by
  intro hz
  have := h.version
  rw [hz] at this
  exact absurd this (by decide)

/-- The body has been decoded: `parse` returned true at the end of the body, its content is
the data of the chunks, and the trailers have joined the headers. -/
structure Decoded (m : HttpRequest) (b : ChunkedBody) (rest : Bytes) (r : ParseResult) : Prop where
  rc : r.rc = .ok .true
  unread : r.unread = rest
  content : r.msg.content = b.data
  contentLength : r.msg.contentLength = b.data.length
  headers : r.msg.headers.Perm (m.headers ++ b.trailers.map HeaderLine.entry)

/-- **A chunked body is decoded exactly**, unless a trailer is refused or it is a form that cannot
be taken apart. -/
theorem parse_chunked_iff (p : HttpParser) (m : HttpRequest) (hw : AwaitingChunks p m)
    (b : ChunkedBody) (hb : b.Ok) (hmax : b.data.length ≤ p.maxContentLength)
    (ec : Option ErrorValue) (rest : Bytes) :
    Decoded m b rest (parse x hook p m ec (b.text ++ rest)) ↔
      (∀ l ∈ b.trailers, l.Readable) ∧
      ¬ (p.parseHeadersOnly = false ∧
        FormThrows x ((addHeaders x m.headers b.trailers).getValue headerContentType) b.data) := by
  have hnote := noteMissingPackets_frame m
  have hcache : (noteMissingPackets m).chunkCache = [] := by
    rw [hnote]
    exact hw.cache
  have hversion : (noteMissingPackets m).versionMajor ≠ 0 := by
    rw [hnote]
    exact hw.version_ne
  by_cases hlines : ∀ l ∈ b.trailers, l.Readable
  swap
  · -- the loop ends at a trailer
    obtain ⟨g, t, hloop⟩ := parseLoop_unreadable hb (g := opened p m ec (b.text ++ rest)) hw.state hw.chunkState
      hw.handler hcache hmax rfl x hook (fun _ => hversion) hlines 1 0
    rw [parse_of_loop hloop]
    exact ⟨fun h => (by cases h.rc), fun h => absurd h.1 hlines⟩
  obtain ⟨g, t, hloop, hread⟩ := parseLoop_chunked hb (g := opened p m ec (b.text ++ rest)) hw.state
    hw.chunkState hw.handler hcache hmax rfl x hook (fun _ => hversion) hlines 1 0
  obtain ⟨hunread, _, _, hmsg, hrc⟩ := parseEnd_true (x := x) g t
  rw [hread.msg] at hmsg
  have hheaders : (withBody x (noteMissingPackets m) b).headers = addHeaders x m.headers b.trailers := by
    show addHeaders x (noteMissingPackets m).headers b.trailers = _
    rw [hnote]
  -- `finish` looks at what the message holds now, trailers included
  have hthrow : FinishThrows x g.parser g.msg ↔ (p.parseHeadersOnly = false ∧
      FormThrows x ((addHeaders x m.headers b.trailers).getValue headerContentType) b.data) := by
    unfold FinishThrows HttpMessage.getHeader
    rw [hread.msg, hread.headersOnly, hread.handler]
    show _ ∧ _ ∧ FormThrows x (Dict.getValue (withBody x (noteMissingPackets m) b).headers _)
      (withBody x (noteMissingPackets m) b).content ↔ _
    rw [hheaders, withBody_content]
    exact ⟨fun h => h.2, fun h => ⟨rfl, h⟩⟩
  rw [parse_of_loop hloop, ← hthrow, ← hrc]
  refine ⟨fun h => ⟨hlines, h.rc⟩, fun ⟨_, h⟩ => ⟨h, hunread.trans hread.unread, ?_, ?_, ?_⟩⟩
  · rw [hmsg]
    exact withBody_content (x := x) (noteMissingPackets m) b
  · rw [hmsg]
    rfl
  · rw [hmsg]
    show (withBody x (noteMissingPackets m) b).headers.Perm _
    rw [hheaders]
    exact addHeaders_perm x b.trailers m.headers

/-- A parser behind the headers of a chunked request. -/
def chunkParser : HttpParser := { HttpParser.fresh 100 0 0 with messageParseState := .chunks }

/-- One chunk of three bytes with an extension, the last chunk, and a trailer. -/
def sampleBody : ChunkedBody where
  chunks := [{ digits := str "03", ext := str ";q", data := str "\r\n0" }]
  last := { digits := str "0" }
  trailers := [{ name := str "X", value := str "y" }]

theorem sampleBody_ok : sampleBody.Ok := by decide +kernel

theorem parse_chunked_iff_sample :
    Decoded HttpRequest.fresh sampleBody (str "rest") (parse plainExternals noHook chunkParser
      HttpRequest.fresh none (sampleBody.text ++ str "rest")) := by
  refine (parse_chunked_iff chunkParser HttpRequest.fresh ⟨rfl, rfl, rfl, rfl, by decide⟩ sampleBody
    sampleBody_ok (by decide) none (str "rest")).mpr ⟨by decide +kernel, fun h => ?_⟩
  exact absurd h.2.2.1 (by decide)

/-- A form with one field, whose boundary follows right behind the field's headers. -/
def emptyField : Bytes := str "--b\r\nContent-Disposition: form-data; name=\"field\"\r\n\r\n--b--"

def emptyFieldBody : ChunkedBody where
  chunks := [{ digits := str "3A", data := emptyField }]
  last := { digits := str "0" }

/-- The headers of the form. -/
def formRequest : HttpRequest :=
  { headers := [(headerContentType, str "multipart/form-data; boundary=b")] }

theorem parse_chunked_emptyField :
    AwaitingChunks chunkParser formRequest ∧ emptyFieldBody.Ok ∧
      emptyFieldBody.data.length ≤ chunkParser.maxContentLength ∧
      ¬ Decoded formRequest emptyFieldBody [] (parse plainExternals noHook chunkParser formRequest none
        (emptyFieldBody.text ++ [])) := by
  refine ⟨⟨rfl, rfl, rfl, rfl, by decide⟩, by decide +kernel, by decide, ?_⟩
  · intro h
    exact absurd h.rc (by decide +kernel)

end Pion.Proof
