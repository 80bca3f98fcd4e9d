import Pion.HttpForms
import Pion.Lib.Scanner

/-!
# The parser

`http_parser` as a state machine over read buffers. `m_read_ptr` and
`m_read_end_ptr` are the list of bytes still unread, so a pointer difference is a
difference of lengths. The counters of the source are `size_t`; here they are
natural numbers, since none of the comparisons the code makes on them can see a
sum that has wrapped: a chunk counter is bounded by the chunk's size and a content
counter by the announced length, both below `2 ^ 64`.

The payload handler is user code. What the parser can see of it is whether a call
throws, which may depend on everything the handler was given before.
-/

namespace Pion

open Lib

/-- `sl::support::tribool`. -/
inductive Tribool where
  | false | true | indeterminate
  deriving DecidableEq, Repr

/-- `error_value_t`. -/
inductive ErrorValue where
  | methodChar | methodSize | uriChar | uriSize | queryChar | querySize | versionEmpty | versionChar
  | statusEmpty | statusChar | headerChar | headerNameSize | headerValueSize
  | invalidContentLength | chunkChar | missingChunkData | missingHeaderData | missingTooMuchContent
  deriving DecidableEq, Repr

/-- `message_parse_state_type`. -/
inductive MessageParseState where
  | start | headers | footers | content | contentNoLength | chunks | «end»
  deriving DecidableEq, Repr

/-- `header_parse_state_type`. -/
inductive HeaderParseState where
  | methodStart | method | uriStem | uriQuery | httpVersionH | httpVersionT1 | httpVersionT2
  | httpVersionP | httpVersionSlash | httpVersionMajorStart | httpVersionMajor
  | httpVersionMinorStart | httpVersionMinor | statusCodeStart | statusCode | statusMessage
  | expectingNewline | expectingCr | headerWhitespace | headerStart | headerName
  | spaceBeforeHeaderValue | headerValue | expectingFinalNewline | expectingFinalCr
  deriving DecidableEq, Repr

/-- `chunk_parse_state_type`. -/
inductive ChunkParseState where
  | chunkSizeStart | chunkSize | expectingIgnoredTextAfterChunkSize | expectingCrAfterChunkSize
  | expectingLfAfterChunkSize | chunk | expectingCrAfterChunk | expectingLfAfterChunk
  | expectingFinalCrOrFootersAfterLastChunk | expectingFinalLfAfterLastChunk
  deriving DecidableEq, Repr

def statusMessageMax : Nat := 1024
def methodMax : Nat := 1024
def resourceMax : Nat := 256 * 1024
def queryStringMax : Nat := 1024 * 1024
def headerNameMax : Nat := 1024
def headerValueMax : Nat := 1024 * 1024
def defaultContentMax : Nat := 1024 * 1024

/-- A payload handler: does it throw on this span, after the bytes it was given before? -/
structure PayloadHandler where
  throws : Bytes → Bytes → Bool

/-- The fields of `http_parser` that `parse_headers` works on. -/
structure HeaderFields where
  headersParseState : HeaderParseState := .methodStart
  statusCode : UInt16 := 0
  statusMessage : Bytes := []
  method : Bytes := []
  resource : Bytes := []
  queryString : Bytes := []
  rawHeaders : Bytes := []
  headerName : Bytes := []
  headerValue : Bytes := []
  saveRawHeaders : Bool := false
  deriving DecidableEq

/-- The fields of `http_parser` that `parse_chunks` works on. -/
structure ChunkFields where
  chunkedContentParseState : ChunkParseState := .chunkSizeStart
  payloadHandler : Option PayloadHandler := none
  chunkSizeStr : Bytes := []
  sizeOfCurrentChunk : Nat
  bytesReadInCurrentChunk : Nat
  maxContentLength : Nat := defaultContentMax
  /-- Not a field of the source: the spans passed to the payload handler so far,
  concatenated in order. -/
  delivered : Bytes := []

/-- The parser. Its fields are grouped by the loop that works on them, so that what a
loop leaves alone need not be proved. -/
structure HttpParser extends HeaderFields, ChunkFields where
  messageParseState : MessageParseState := .start
  bytesContentRemaining : Nat := 0
  bytesContentRead : Nat := 0
  bytesLastRead : Nat := 0
  bytesTotalRead : Nat := 0
  parseHeadersOnly : Bool := false

/-- `if (m_save_raw_headers) m_raw_headers += *m_read_ptr`. -/
def HeaderFields.recordRaw (p : HeaderFields) (bs : Bytes) : HeaderFields :=
  { p with rawHeaders := if p.saveRawHeaders then p.rawHeaders ++ bs else p.rawHeaders }

/-- Pass a span to the payload handler, `none` if it throws. -/
def ChunkFields.deliver (p : ChunkFields) (h : PayloadHandler) (span : Bytes) :
    Option ChunkFields :=
  if h.throws p.delivered span then none else some { p with delivered := p.delivered ++ span }

namespace HttpParser

/-- A new parser. The constructor leaves the two chunk counters uninitialised. -/
def fresh (maxContentLength sizeGarbage readGarbage : Nat) : HttpParser :=
  { maxContentLength := maxContentLength, sizeOfCurrentChunk := sizeGarbage,
    bytesReadInCurrentChunk := readGarbage }

/-- Account for `n` bytes read by the current operation. -/
def account (p : HttpParser) (n : Nat) : HttpParser :=
  { p with bytesLastRead := n, bytesTotalRead := p.bytesTotalRead + n }

/-- The same for bytes of payload content. -/
def accountContent (p : HttpParser) (n : Nat) : HttpParser :=
  { p with bytesLastRead := n, bytesTotalRead := p.bytesTotalRead + n,
           bytesContentRead := p.bytesContentRead + n }

end HttpParser

/-! ## Headers -/

/-- What the header loop carries: its fields and the message it fills. -/
abbrev HeaderState := HeaderFields × HttpRequest

/-- The header loop stops with `none` for `return true`, with an error for `return false`. -/
abbrev HeaderAction := SymbolAction HeaderState (Option ErrorValue)

/-- `set_error(ec, e); return false` without using up the byte. -/
def headerError (s : HeaderState) (e : ErrorValue) : HeaderAction := .stop (some e) s false

/-- `++m_read_ptr; return true`. -/
def headerDone (s : HeaderState) : HeaderAction := .stop none s true

/-- Use up the byte and go to another state. -/
def headerGoto (s : HeaderState) (st : HeaderParseState) : HeaderAction :=
  .take ({ s.1 with headersParseState := st }, s.2)

/-- The request line ended without a version. -/
def setVersionZero (s : HeaderState) : HeaderState :=
  (s.1, { s.2 with versionMajor := 0, versionMinor := 0, firstLine := [] })

/-- Take the first byte of a header name. The same code stands in four states. -/
def startHeaderName (s : HeaderState) (c : UInt8) : HeaderAction :=
  if notToken c then headerError s .headerChar
  else .take ({ s.1 with headerName := [c], headersParseState := .headerName }, s.2)

/-- `http_msg.add_header(m_header_name, m_header_value)`. -/
def addHeader (x : Externals) (s : HeaderState) : HeaderState :=
  (s.1, { s.2 with headers := x.insert s.2.headers (s.1.headerName, s.1.headerValue) })

/-- One letter of `HTTP/`. -/
def expectVersionByte (s : HeaderState) (c expected : UInt8) (st : HeaderParseState) :
    HeaderAction :=
  if c ≠ expected then headerError s .versionChar else headerGoto s st

/-- The value of an ASCII digit, as `*m_read_ptr - '0'` stored in a `uint16_t`. -/
def digitValue (c : UInt8) : UInt16 := UInt16.ofNat (c.toNat - 48)

/-- One pass of the loop in `parse_headers`, after the byte has been recorded. -/
def headerSwitch (x : Externals) (s : HeaderState) (c : UInt8) : HeaderAction :=
  let p := s.1
  let m := s.2
  match p.headersParseState with
  | .methodStart =>
    -- leading blanks and line ends are ignored
    if c ≠ sp ∧ c ≠ cr ∧ c ≠ lf then
      if notToken c then headerError s .methodChar
      else .take ({ p with headersParseState := .method, method := [c] }, m)
    else .take s
  | .method =>
    if c = sp then .take ({ p with resource := [], headersParseState := .uriStem }, m)
    else if notToken c then headerError s .methodChar
    else if p.method.length ≥ methodMax then headerError s .methodSize
    else .take ({ p with method := p.method ++ [c] }, m)
  | .uriStem =>
    if c = sp then headerGoto s .httpVersionH
    else if c = question then .take ({ p with queryString := [], headersParseState := .uriQuery }, m)
    else if c = cr then headerGoto (setVersionZero s) .expectingNewline
    else if c = lf then headerGoto (setVersionZero s) .expectingCr
    else if isControl c then headerError s .uriChar
    else if p.resource.length ≥ resourceMax then headerError s .uriSize
    else .take ({ p with resource := p.resource ++ [c] }, m)
  | .uriQuery =>
    if c = sp then headerGoto s .httpVersionH
    else if c = cr then headerGoto (setVersionZero s) .expectingNewline
    else if c = lf then headerGoto (setVersionZero s) .expectingCr
    else if isControl c then headerError s .queryChar
    else if p.queryString.length ≥ queryStringMax then headerError s .querySize
    else .take ({ p with queryString := p.queryString ++ [c] }, m)
  | .httpVersionH =>
    -- the state chosen in the first two branches is overwritten after the branches
    if c = cr ∨ c = lf then headerGoto (setVersionZero s) .httpVersionT1
    else expectVersionByte s c 72 .httpVersionT1
  | .httpVersionT1 => expectVersionByte s c 84 .httpVersionT2
  | .httpVersionT2 => expectVersionByte s c 84 .httpVersionP
  | .httpVersionP => expectVersionByte s c 80 .httpVersionSlash
  | .httpVersionSlash => expectVersionByte s c slash .httpVersionMajorStart
  | .httpVersionMajorStart =>
    if !isDigit c then headerError s .versionChar
    else headerGoto (p, { m with versionMajor := digitValue c, firstLine := [] }) .httpVersionMajor
  | .httpVersionMajor =>
    if c = dot then headerGoto s .httpVersionMinorStart
    else if isDigit c then
      .take (p, { m with versionMajor := m.versionMajor * 10 + digitValue c, firstLine := [] })
    else headerError s .versionChar
  | .httpVersionMinorStart =>
    if !isDigit c then headerError s .versionChar
    else headerGoto (p, { m with versionMinor := digitValue c, firstLine := [] }) .httpVersionMinor
  | .httpVersionMinor =>
    -- blanks behind the version are ignored, also between its digits
    if c = sp then .take s
    else if c = cr then headerGoto s .expectingNewline
    else if c = lf then headerGoto s .expectingCr
    else if isDigit c then
      .take (p, { m with versionMinor := m.versionMinor * 10 + digitValue c, firstLine := [] })
    else headerError s .versionChar
  | .statusCodeStart =>
    if !isDigit c then headerError s .statusChar
    else .take ({ p with statusCode := digitValue c, headersParseState := .statusCode }, m)
  | .statusCode =>
    if c = sp then .take ({ p with statusMessage := [], headersParseState := .statusMessage }, m)
    else if isDigit c then .take ({ p with statusCode := p.statusCode * 10 + digitValue c }, m)
    -- the line ends without a status message
    else if c = cr then
      .take ({ p with statusMessage := [], headersParseState := .expectingNewline }, m)
    else if c = lf then .take ({ p with statusMessage := [], headersParseState := .expectingCr }, m)
    else headerError s .statusChar
  | .statusMessage =>
    if c = cr then headerGoto s .expectingNewline
    else if c = lf then headerGoto s .expectingCr
    else if isControl c then headerError s .statusChar
    else if p.statusMessage.length ≥ statusMessageMax then headerError s .statusChar
    else .take ({ p with statusMessage := p.statusMessage ++ [c] }, m)
  | .expectingNewline =>
    if c = lf then
      -- HTTP 0.9 simple request
      if m.versionMajor = 0 then headerDone s else headerGoto s .headerStart
    -- two CRs in a row end the headers, as if lines ended in a CR only
    else if c = cr then headerDone s
    else if c = tab ∨ c = sp then headerGoto s .headerWhitespace
    else startHeaderName s c
  | .expectingCr =>
    if c = cr then headerGoto s .headerStart
    -- the same for two LFs
    else if c = lf then headerDone s
    else if c = tab ∨ c = sp then headerGoto s .headerWhitespace
    else startHeaderName s c
  | .headerWhitespace =>
    if c = cr then headerGoto s .expectingNewline
    else if c = lf then headerGoto s .expectingCr
    else if c ≠ tab ∧ c ≠ sp then startHeaderName s c
    else .take s
  | .headerStart =>
    if c = cr then headerGoto s .expectingFinalNewline
    else if c = lf then headerGoto s .expectingFinalCr
    else if c = tab ∨ c = sp then headerGoto s .headerWhitespace
    else startHeaderName s c
  | .headerName =>
    if c = colon then
      .take ({ p with headerValue := [], headersParseState := .spaceBeforeHeaderValue }, m)
    else if notToken c then headerError s .headerChar
    else if p.headerName.length ≥ headerNameMax then headerError s .headerNameSize
    else .take ({ p with headerName := p.headerName ++ [c] }, m)
  | .spaceBeforeHeaderValue =>
    if c = sp then headerGoto s .headerValue
    else if c = cr then headerGoto (addHeader x s) .expectingNewline
    else if c = lf then headerGoto (addHeader x s) .expectingCr
    -- glued to the colon, the first byte of a value must be one that a name may have
    else if notToken c then headerError s .headerChar
    else .take ({ p with headerValue := p.headerValue ++ [c], headersParseState := .headerValue }, m)
  | .headerValue =>
    if c = cr then headerGoto (addHeader x s) .expectingNewline
    else if c = lf then headerGoto (addHeader x s) .expectingCr
    else if c ≠ tab ∧ isControl c then headerError s .headerChar
    else if p.headerValue.length ≥ headerValueMax then headerError s .headerValueSize
    else .take ({ p with headerValue := p.headerValue ++ [c] }, m)
  -- any other byte is left for whoever reads next
  | .expectingFinalNewline => .stop none s (c = lf)
  | .expectingFinalCr => .stop none s (c = cr)

/-- One pass of the loop in `parse_headers`. -/
def headerStep (x : Externals) (s : HeaderState) (c : UInt8) : HeaderAction :=
  headerSwitch x (s.1.recordRaw [c], s.2) c

def headerScanner (x : Externals) : Scanner HeaderState (Option ErrorValue) UInt8 :=
  Scanner.ofSymbols (headerStep x)

/-- A parser with its message, the caller's error code and the bytes still unread. -/
structure Progress where
  parser : HttpParser
  msg : HttpRequest
  ec : Option ErrorValue
  unread : Bytes

def parseHeaders (x : Externals) (g : Progress) : Progress × Tribool :=
  let n := g.unread.length
  let p := { g.parser with bytesLastRead := 0 }
  match (headerScanner x).run (p.toHeaderFields, g.msg) g.unread with
  | .more s =>
    ({ g with parser := { p with toHeaderFields := s.1 }.account n, msg := s.2, unread := [] },
      .indeterminate)
  | .stop none s rest =>
    ({ g with parser := { p with toHeaderFields := s.1 }.account (n - rest.length),
              msg := s.2, unread := rest }, .true)
  | .stop (some e) s rest =>
    ({ parser := { p with toHeaderFields := s.1 }, msg := s.2, ec := some e, unread := rest }, .false)

/-! ## Chunks -/

/-- How the chunk loop returns before its buffer is used up. -/
inductive Halt where
  /-- `return true` after the final CRLF. -/
  | done
  /-- `return true` in front of the first byte of a trailer. -/
  | footers
  /-- `set_error(ec, e); return false`. -/
  | error (e : ErrorValue)
  /-- The payload handler threw. -/
  | threw
  deriving DecidableEq

/-- What the chunk loop carries: its fields and the chunk cache. -/
abbrev ChunkState := ChunkFields × Bytes

abbrev ChunkAction := Action ChunkState Halt UInt8

/-- Use up the byte and go to another state. -/
def chunkGoto (s : ChunkState) (st : ChunkParseState) : SymbolAction ChunkState Halt :=
  .take ({ s.1 with chunkedContentParseState := st }, s.2)

/-- `set_error(ec, ERROR_CHUNK_CHAR); return false`. -/
def chunkError (s : ChunkState) : SymbolAction ChunkState Halt :=
  .stop (.error .chunkChar) s false

/-- One pass of the loop in `parse_chunks`, in every state but `PARSE_CHUNK`. -/
def chunkSwitch (s : ChunkState) (c : UInt8) : SymbolAction ChunkState Halt :=
  let p := s.1
  match p.chunkedContentParseState with
  | .chunkSizeStart =>
    if isHexDigit c then
      .take ({ p with chunkSizeStr := [c], chunkedContentParseState := .chunkSize }, s.2)
    -- white space is ignored, line ends too
    else if c = sp ∨ c = tab ∨ c = cr ∨ c = lf then .take s
    else chunkError s
  | .chunkSize =>
    if isHexDigit c then .take ({ p with chunkSizeStr := p.chunkSizeStr ++ [c] }, s.2)
    else if c = cr then chunkGoto s .expectingLfAfterChunkSize
    else if c = sp ∨ c = tab then chunkGoto s .expectingCrAfterChunkSize
    else if c = semicolon then chunkGoto s .expectingIgnoredTextAfterChunkSize
    else chunkError s
  | .expectingIgnoredTextAfterChunkSize =>
    if c = cr then chunkGoto s .expectingLfAfterChunkSize else .take s
  | .expectingCrAfterChunkSize =>
    if c = cr then chunkGoto s .expectingLfAfterChunkSize
    else if c = sp ∨ c = tab then .take s
    else chunkError s
  | .expectingLfAfterChunkSize =>
    if c = lf then
      let size := strtol p.chunkSizeStr
      .take ({ p with
        bytesReadInCurrentChunk := 0
        sizeOfCurrentChunk := size
        chunkedContentParseState :=
          if size = 0 then .expectingFinalCrOrFootersAfterLastChunk else .chunk }, s.2)
    else chunkError s
  | .chunk => .take s -- `chunkData` does the work of this state
  | .expectingCrAfterChunk =>
    if c = cr then chunkGoto s .expectingLfAfterChunk else chunkError s
  | .expectingLfAfterChunk =>
    if c = lf then chunkGoto s .chunkSizeStart else chunkError s
  | .expectingFinalCrOrFootersAfterLastChunk =>
    if c = cr then chunkGoto s .expectingFinalLfAfterLastChunk
    else .stop .footers s false
  | .expectingFinalLfAfterLastChunk =>
    if c = lf then .stop .done s true else chunkError s

/-- The end of the pass in `PARSE_CHUNK`: is the chunk complete? -/
def endOfChunk (s : ChunkState) : ChunkState :=
  if s.1.bytesReadInCurrentChunk = s.1.sizeOfCurrentChunk then
    ({ s.1 with chunkedContentParseState := .expectingCrAfterChunk }, s.2)
  else s

/-- The pass in `PARSE_CHUNK`: a span for the payload handler, or one byte for the cache. -/
def chunkData (s : ChunkState) (c : UInt8) (cs : Bytes) : ChunkAction :=
  let p := s.1
  if p.bytesReadInCurrentChunk < p.sizeOfCurrentChunk then
    match p.payloadHandler with
    | some h =>
      -- all that the buffer has of the chunk at once
      let len := min (p.sizeOfCurrentChunk - p.bytesReadInCurrentChunk) (c :: cs).length
      match p.deliver h ((c :: cs).take len) with
      | none => .stop .threw s (c :: cs)
      | some p =>
        .next (endOfChunk ({ p with bytesReadInCurrentChunk := p.bytesReadInCurrentChunk + len },
          s.2)) ((c :: cs).drop len)
    | none =>
      -- a byte over the limit is dropped without being counted
      if s.2.length < p.maxContentLength then
        .next (endOfChunk ({ p with bytesReadInCurrentChunk := p.bytesReadInCurrentChunk + 1 },
          s.2 ++ [c])) cs
      else .next (endOfChunk s) cs
  else .next (endOfChunk s) cs

/-- One pass of the loop in `parse_chunks`. -/
def chunkStep (s : ChunkState) (c : UInt8) (cs : Bytes) : ChunkAction :=
  if s.1.chunkedContentParseState = .chunk then chunkData s c cs
  else (chunkSwitch s c).onBuffer c cs

theorem chunkData_shrinks (s : ChunkState) (c : UInt8) (cs : Bytes) (s' : ChunkState)
    (rest : Bytes) (h : chunkData s c cs = .next s' rest) : rest.length ≤ cs.length := by
  unfold chunkData at h
  dsimp only at h
  split at h
  · rename_i hlt
    split at h
    · split at h
      · cases h
      · injection h with _ h
        subst h
        rw [List.length_drop, List.length_cons]
        omega
    · split at h <;> (injection h with _ h; subst h; exact Nat.le_refl _)
  · injection h with _ h; subst h; exact Nat.le_refl _

theorem chunkStep_shrinks (s : ChunkState) (c : UInt8) (cs : Bytes) (s' : ChunkState)
    (rest : Bytes) (h : chunkStep s c cs = .next s' rest) : rest.length ≤ cs.length := by
  unfold chunkStep at h
  split at h
  · exact chunkData_shrinks s c cs s' rest h
  · exact (Scanner.ofSymbols chunkSwitch).shrinks s c cs s' rest h

def chunkScanner : Scanner ChunkState Halt UInt8 where
  step := chunkStep
  shrinks := chunkStep_shrinks

/-- `parse_chunks` on the message's chunk cache; no result when the payload handler throws. -/
def parseChunks (g : Progress) : Progress × Option Tribool :=
  let n := g.unread.length
  let p := { g.parser with bytesLastRead := 0 }
  let set (p : HttpParser) (s : ChunkState) (rest : Bytes) : Progress :=
    { g with parser := p, msg := { g.msg with chunkCache := s.2 }, unread := rest }
  match chunkScanner.run (p.toChunkFields, g.msg.chunkCache) g.unread with
  | .more s => (set ({ p with toChunkFields := s.1 }.accountContent n) s [], some .indeterminate)
  | .stop .done s rest =>
    (set ({ p with toChunkFields := s.1 }.accountContent (n - rest.length)) s rest, some .true)
  | .stop .footers s rest =>
    -- the header loop takes over at the byte in front
    let p := { p with toChunkFields := s.1, messageParseState := .footers,
                      headersParseState := .headerStart }
    (set (p.accountContent (n - rest.length)) s rest, some .true)
  | .stop (.error e) s rest =>
    ({ set { p with toChunkFields := s.1 } s rest with ec := some e }, some .false)
  | .stop .threw s rest => (set { p with toChunkFields := s.1 } s rest, none)

/-! ## Content -/

/-- Store content bytes behind those already read, as far as the limit allows. -/
def storeContent (p : HttpParser) (m : HttpRequest) (data : Bytes) : HttpRequest :=
  let copy (data : Bytes) : HttpRequest :=
    { m with toHttpMessage := m.copyToContent p.bytesContentRead data }
  if p.bytesContentRead < p.maxContentLength then
    if p.bytesContentRead + data.length > p.maxContentLength then
      copy (data.take (p.maxContentLength - p.bytesContentRead))
    else copy data
  else m

/-- `consume_content`; no result when the payload handler throws. -/
def consumeContent (g : Progress) : Progress × Option Tribool :=
  let p := g.parser
  if p.bytesContentRemaining = 0 then (g, some .true)
  else
    let rc := if g.unread.length ≥ p.bytesContentRemaining then Tribool.true else .indeterminate
    -- what is behind the content stays unread
    let n := min g.unread.length p.bytesContentRemaining
    let data := g.unread.take n
    let p := { p with bytesContentRemaining := p.bytesContentRemaining - n }
    match p.payloadHandler with
    | some h =>
      match p.deliver h data with
      | none => ({ g with parser := p }, none)
      | some q =>
        ({ g with parser := { p with toChunkFields := q }.accountContent n,
                  unread := g.unread.drop n }, some rc)
    | none =>
      ({ g with parser := p.accountContent n, msg := storeContent p g.msg data,
                unread := g.unread.drop n }, some rc)

/-- `consume_content_as_next_chunk`; no result when the payload handler throws. -/
def consumeContentAsNextChunk (g : Progress) : Progress × Option Unit :=
  let n := g.unread.length
  let p := { g.parser with bytesLastRead := n }
  if n = 0 then ({ g with parser := p }, some ())
  else
    match p.payloadHandler with
    | some h =>
      match p.deliver h g.unread with
      | none => ({ g with parser := p }, none)
      | some q =>
        ({ g with parser := { p with toChunkFields := q }.accountContent n, unread := [] }, some ())
    | none =>
      let room := p.maxContentLength - g.msg.chunkCache.length
      ({ g with parser := p.accountContent n, unread := [],
                msg := { g.msg with chunkCache := g.msg.chunkCache ++ g.unread.take room } }, some ())

/-! ## Message -/

/-- `update_message_with_header_data`. -/
def updateMessageWithHeaderData (x : Externals) (p : HttpParser) (m : HttpRequest) : HttpRequest :=
  let m := ((m.setMethod p.method).setResource p.resource).setQueryString p.queryString
  let m :=
    if p.queryString = [] then m
    else { m with queryParams := (parseUrlEncoded x m.queryParams p.queryString).1 }
  let parseCookies (d : Dict) (v : Bytes) : Dict := (parseCookieHeader x d v false).1
  { m with cookieParams := (m.headers.equalRange headerCookie).foldl parseCookies m.cookieParams }

/-- What `finished_parsing_headers` may do: change the result code, set a payload handler. -/
structure HookResult where
  rc : Tribool
  payloadHandler : Option PayloadHandler := none

/-- The virtual function `finished_parsing_headers`, as a function of the request and
of its two arguments. -/
abbrev Hook := HttpRequest → Option ErrorValue → Tribool → Except Exn HookResult

/-- The no-op of the base class. -/
def noHook : Hook := fun _ _ rc => .ok { rc := rc }

/-- The part of `finish_header_parsing` in front of the hook: the framing of the body.
Fails when the content length cannot be read. -/
def decideFraming (x : Externals) (p : HttpParser) (m : HttpRequest) :
    Option (HttpParser × HttpRequest × Tribool) :=
  if m.isChunked then
    some ({ p with messageParseState := .chunks }, m,
      if p.parseHeadersOnly then .true else .indeterminate)
  else if m.hasHeader headerContentLength then
    match m.updateContentLengthUsingHeader x with
    | none => none
    | some msg =>
      let m := { m with toHttpMessage := msg }
      if m.contentLength = 0 then some ({ p with messageParseState := .end }, m, .true)
      else
        let p := { p with messageParseState := .content, bytesContentRemaining := m.contentLength }
        -- the whole content is read, but the message keeps no more than the limit
        let m := if p.bytesContentRemaining > p.maxContentLength then
          { m with contentLength := p.maxContentLength } else m
        if p.parseHeadersOnly then some (p, m, .true)
        else some (p, { m with toHttpMessage := m.createContentBuffer }, .indeterminate)
  else some ({ p with messageParseState := .end }, m, .true)

/-- The state in which `finish_header_parsing` looks at the headers. -/
def beforeFraming (x : Externals) (p : HttpParser) (m : HttpRequest) : HttpParser × HttpRequest :=
  let m := { m with contentLength := 0 }
  let m := { m with toHttpMessage := m.updateTransferEncodingUsingHeader }
  ({ p with bytesContentRemaining := 0, bytesContentRead := 0 }, updateMessageWithHeaderData x p m)

/-- `create_content_buffer` throws: there is a content to be kept, and no memory for it. -/
def contentBufferFails [Memory] (p : HttpParser) (m : HttpRequest) (rc : Tribool) : Bool :=
  !m.contentBufferAllocates && (p.messageParseState = .content && rc = .indeterminate)

def finishHeaderParsing [Memory] (x : Externals) (hook : Hook) (g : Progress) :
    Progress × Except Exn Tribool :=
  let s := beforeFraming x g.parser g.msg
  match decideFraming x s.1 s.2 with
  | none => ({ g with parser := s.1, msg := s.2, ec := some .invalidContentLength }, .ok .false)
  | some (p, m, rc) =>
    -- the message is left with its old buffer, and the hook is not called
    if contentBufferFails p m rc then
      ({ g with parser := p, msg := { m with contentBuf := s.2.contentBuf } }, .error .badAlloc)
    else
      match hook m g.ec rc with
      | .error e => ({ g with parser := p, msg := m }, .error e)
      | .ok r =>
        ({ g with parser := { p with payloadHandler := r.payloadHandler <|> p.payloadHandler },
                  msg := m }, .ok r.rc)

/-- `compute_msg_status`. -/
def computeMsgStatus (m : HttpRequest) (msgParsedOk : Bool) : HttpRequest :=
  { m with status :=
      if m.hasMissingPackets then
        if m.hasDataAfterMissing then .statusPartial else .statusTruncated
      else if msgParsedOk then .statusOk else .statusTruncated }

/-- The last part of `finish`: query pairs from a posted form. -/
def parsePostContent (x : Externals) (m : HttpRequest) : HttpRequest × Option Exn :=
  let contentType := m.getHeader headerContentType
  if contentTypeUrlencoded.isPrefixOf contentType then
    ({ m with queryParams := (parseUrlEncoded x m.queryParams m.content).1 }, none)
  else if contentTypeMultipartFormData.isPrefixOf contentType then
    let r := parseMultipartFormData x m.queryParams contentType m.content
    ({ m with queryParams := r.1 }, match r.2 with | .ok _ => none | .error e => some e)
  else (m, none)

/-- `finish`, with the exception that leaves it, if any. -/
def finish (x : Externals) (p : HttpParser) (m : HttpRequest) : HttpRequest × Option Exn :=
  let conclude (m : HttpRequest) : HttpRequest × Option Exn :=
    let m := computeMsgStatus m m.isValid
    -- a form is taken apart only if its content was kept
    if p.payloadHandler.isNone ∧ !p.parseHeadersOnly then parsePostContent x m else (m, none)
  let concatenate (m : HttpRequest) : HttpRequest :=
    if p.payloadHandler.isNone then { m with toHttpMessage := m.concatenateChunks } else m
  let clearContent (m : HttpRequest) : HttpRequest := { m with contentLength := 0, contentBuf := [] }
  match p.messageParseState with
  | .start => (clearContent { m with isValid := false }, none)
  | .end => conclude { m with isValid := true }
  | .headers | .footers =>
    conclude (clearContent (updateMessageWithHeaderData x p { m with isValid := false }))
  | .content =>
    let m := { m with isValid := false }
    conclude (if p.bytesContentRead < p.maxContentLength then
      { m with contentLength := p.bytesContentRead } else m)
  | .chunks =>
    conclude (concatenate { m with isValid := p.chunkedContentParseState = .chunkSizeStart })
  | .contentNoLength => conclude (concatenate { m with isValid := true })

/-- `PARSE_HEADERS` and `PARSE_FOOTERS` of the loop in `parse`. -/
def parseHeadersCase [Memory] (x : Externals) (hook : Hook) (g : Progress) (total : Nat) :
    Progress × Nat × Except Exn Tribool :=
  let r := parseHeaders x g
  let total := total + r.1.parser.bytesLastRead
  if r.2 = .true ∧ r.1.parser.messageParseState = .headers then
    let f := finishHeaderParsing x hook r.1
    (f.1, total, f.2)
  else (r.1, total, .ok r.2)

/-- `PARSE_CHUNKS` of the loop in `parse`. -/
def parseChunksCase (g : Progress) (total : Nat) : Progress × Nat × Except Exn Tribool :=
  let r := parseChunks g
  match r.2 with
  | none => (r.1, total, .ok .false)
  | some rc =>
    let total := total + r.1.parser.bytesLastRead
    -- with a payload handler, trailers are not read: the result is `true` in front of them
    if rc = .true ∧ r.1.parser.payloadHandler.isNone then
      ({ r.1 with msg := { r.1.msg with toHttpMessage := r.1.msg.concatenateChunks } }, total,
        .ok (if r.1.parser.messageParseState = .footers then .indeterminate else .true))
    else (r.1, total, .ok rc)

/-- One pass of the loop in `parse`; `total` is `total_bytes_parsed`. -/
def parseSwitch [Memory] (x : Externals) (hook : Hook) (g : Progress) (total : Nat) :
    Progress × Nat × Except Exn Tribool :=
  match g.parser.messageParseState with
  | .start =>
    parseHeadersCase x hook { g with parser := { g.parser with messageParseState := .headers } } total
  | .headers | .footers => parseHeadersCase x hook g total
  | .chunks => parseChunksCase g total
  | .content =>
    let r := consumeContent g
    match r.2 with
    | none => (r.1, total, .ok .false)
    | some rc => (r.1, total + r.1.parser.bytesLastRead, .ok rc)
  | .contentNoLength =>
    let r := consumeContentAsNextChunk g
    match r.2 with
    | none => (r.1, total, .ok .false)
    | some () => (r.1, total + r.1.parser.bytesLastRead, .ok .indeterminate)
  | .end => (g, total, .ok .true)

/-- The loop in `parse`, with a bound on the number of passes. -/
def parseLoop [Memory] (x : Externals) (hook : Hook) : Nat → Progress → Nat →
    Progress × Nat × Except Exn Tribool
  | 0, g, total => (g, total, .ok .indeterminate)
  | n + 1, g, total =>
    match parseSwitch x hook g total with
    | (g', total', .ok .indeterminate) =>
      if g'.unread = [] then (g', total', .ok .indeterminate) else parseLoop x hook n g' total'
    | r => r

structure ParseResult extends Progress where
  /-- What `parse` returned, or the exception that left it. -/
  rc : Except Exn Tribool

/-- What `parse` does after its loop. -/
def parseEnd (x : Externals) (g : Progress) (total : Nat) (rc : Except Exn Tribool) : ParseResult :=
  match rc with
  | .error e => { g with rc := .error e }
  | .ok .true =>
    let p := { g.parser with messageParseState := .end }
    match finish x p g.msg with
    | (m, none) => { g with parser := { p with bytesLastRead := total }, msg := m, rc := .ok .true }
    | (m, some e) => { g with parser := p, msg := m, rc := .error e }
  | .ok .false =>
    { g with parser := { g.parser with bytesLastRead := total },
             msg := computeMsgStatus g.msg false, rc := .ok .false }
  | .ok .indeterminate =>
    { g with parser := { g.parser with bytesLastRead := total }, rc := .ok .indeterminate }

/-- What `parse` does in front of its loop. -/
def noteMissingPackets (m : HttpRequest) : HttpRequest :=
  if m.hasMissingPackets then { m with hasDataAfterMissing := true } else m

/-- `parse` on a read buffer. A call goes through at most three phases of the message
(headers, chunks, trailers), so three passes of the loop are enough. -/
def parse [Memory] (x : Externals) (hook : Hook) (p : HttpParser) (m : HttpRequest) (ec : Option ErrorValue)
    (buf : Bytes) : ParseResult :=
  let r := parseLoop x hook 3 { parser := p, msg := noteMissingPackets m, ec := ec, unread := buf } 0
  parseEnd x r.1 r.2.1 r.2.2

/-! ## One call after another -/

/-- `reset`. What the other fields hold is left in them. -/
def HttpParser.reset (p : HttpParser) : HttpParser :=
  { p with
    messageParseState := .start, headersParseState := .methodStart
    chunkedContentParseState := .chunkSizeStart
    statusCode := 0, statusMessage := [], method := [], resource := [], queryString := []
    rawHeaders := [], bytesContentRead := 0, bytesLastRead := 0, bytesTotalRead := 0 }

/-- What the owner of a parser sets: its limit, its handler (with the bytes that the
handler has been given before) and the two flags. -/
structure ParserSettings where
  maxContentLength : Nat := defaultContentMax
  payloadHandler : Option PayloadHandler := none
  delivered : Bytes := []
  parseHeadersOnly : Bool := false
  saveRawHeaders : Bool := false

def HttpParser.settings (p : HttpParser) : ParserSettings where
  maxContentLength := p.maxContentLength
  payloadHandler := p.payloadHandler
  delivered := p.delivered
  parseHeadersOnly := p.parseHeadersOnly
  saveRawHeaders := p.saveRawHeaders

/-- A new parser with these settings. -/
def ParserSettings.parser (c : ParserSettings) (sizeGarbage readGarbage : Nat) : HttpParser :=
  { HttpParser.fresh c.maxContentLength sizeGarbage readGarbage with
    payloadHandler := c.payloadHandler, delivered := c.delivered
    parseHeadersOnly := c.parseHeadersOnly, saveRawHeaders := c.saveRawHeaders }

/-- A call of `parse`: the hook and the error code it finds, and the read buffer. -/
structure ParseCall where
  hook : Hook
  ec : Option ErrorValue := none
  buf : Bytes

def ParseCall.result (x : Externals) (s : HttpParser × HttpRequest) (c : ParseCall) : ParseResult :=
  parse x c.hook s.1 s.2 c.ec c.buf

/-- A parser and its message behind a list of calls, whatever they returned. -/
def afterCalls (x : Externals) (s : HttpParser × HttpRequest) (calls : List ParseCall) :
    HttpParser × HttpRequest :=
  calls.foldl (fun s c => ((c.result x s).parser, (c.result x s).msg)) s

end Pion
