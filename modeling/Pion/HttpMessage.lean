import Pion.Algorithm

/-!
# Messages

`http_message` and its two subclasses. Every field that a modelled function reads
or writes is here; the remote address is not, since nothing looks at it.

A `content_buffer_t` is the list of the bytes it was sized for, without the
terminating zero that `resize` adds behind them.
-/

namespace Pion

/-- `data_status_type`. -/
inductive DataStatus where
  | statusNone | statusTruncated | statusPartial | statusOk
  deriving DecidableEq, Repr

structure HttpMessage where
  /-- The cached first line; empty when it has to be built again. -/
  firstLine : Bytes := []
  isValid : Bool := false
  isChunked : Bool := false
  chunksSupported : Bool := false
  doNotSendContentLength : Bool := false
  versionMajor : UInt16 := 1
  versionMinor : UInt16 := 1
  contentLength : Nat := 0
  contentBuf : Bytes := []
  chunkCache : Bytes := []
  headers : Dict := []
  cookieParams : Dict := []
  status : DataStatus := .statusNone
  hasMissingPackets : Bool := false
  hasDataAfterMissing : Bool := false
  deriving DecidableEq

/-! ## Header names and other strings -/

def headerCookie : Bytes := str "Cookie"
def headerSetCookie : Bytes := str "Set-Cookie"
def headerConnection : Bytes := str "Connection"
def headerContentType : Bytes := str "Content-Type"
def headerContentLength : Bytes := str "Content-Length"
def headerContentDisposition : Bytes := str "Content-Disposition"
def headerTransferEncoding : Bytes := str "Transfer-Encoding"
def stringHttpVersion : Bytes := str "HTTP/"
def headerNameValueDelimiter : Bytes := str ": "
def contentTypeUrlencoded : Bytes := str "application/x-www-form-urlencoded"
def contentTypeMultipartFormData : Bytes := str "multipart/form-data"
def requestMethodHead : Bytes := str "HEAD"
def requestMethodGet : Bytes := str "GET"
def requestMethodPut : Bytes := str "PUT"
def requestMethodPost : Bytes := str "POST"
def requestMethodDelete : Bytes := str "DELETE"
def requestMethodOptions : Bytes := str "OPTIONS"

/-- The memory of the process: a length that a client has sent may be more than it has. -/
class Memory where
  /-- Does `new char[size]` succeed? -/
  allocates : Nat → Bool

/-- Where nothing else is said, there is enough of it. -/
instance (priority := low) enoughMemory : Memory := ⟨fun _ => true⟩

namespace HttpMessage

/-! ## Setters -/

def setVersionMajor (m : HttpMessage) (n : UInt16) : HttpMessage :=
  { m with versionMajor := n, firstLine := [] }

def setVersionMinor (m : HttpMessage) (n : UInt16) : HttpMessage :=
  { m with versionMinor := n, firstLine := [] }

def addHeader (x : Externals) (m : HttpMessage) (key value : Bytes) : HttpMessage :=
  { m with headers := x.insert m.headers (key, value) }

def changeHeader (x : Externals) (m : HttpMessage) (key value : Bytes) : HttpMessage :=
  { m with headers := m.headers.changeValue x key value }

def deleteHeader (m : HttpMessage) (key : Bytes) : HttpMessage :=
  { m with headers := m.headers.deleteValue key }

def setContentType (x : Externals) (m : HttpMessage) (type : Bytes) : HttpMessage :=
  m.changeHeader x headerContentType type

def addCookie (x : Externals) (m : HttpMessage) (key value : Bytes) : HttpMessage :=
  { m with cookieParams := x.insert m.cookieParams (key, value) }

def changeCookie (x : Externals) (m : HttpMessage) (key value : Bytes) : HttpMessage :=
  { m with cookieParams := m.cookieParams.changeValue x key value }

def deleteCookie (m : HttpMessage) (key : Bytes) : HttpMessage :=
  { m with cookieParams := m.cookieParams.deleteValue key }

/-- Is there memory for the buffer of `create_content_buffer`? It has one byte more than the
content; for an empty content there is none. -/
def contentBufferAllocates [Memory] (m : HttpMessage) : Bool :=
  Memory.allocates (m.contentLength + 1) || m.contentLength = 0

/-- `create_content_buffer`: a zeroed buffer of `m_content_length` bytes, if there is memory
for it. -/
def createContentBuffer (m : HttpMessage) : HttpMessage :=
  { m with contentBuf := List.replicate m.contentLength 0 }

/-- `memcpy(get_content() + offset, data, data.size())`. -/
def copyToContent (m : HttpMessage) (offset : Nat) (data : Bytes) : HttpMessage :=
  { m with
    contentBuf := m.contentBuf.take offset ++ data ++ m.contentBuf.drop (offset + data.length) }

/-- `set_content`. -/
def setContent (m : HttpMessage) (content : Bytes) : HttpMessage :=
  { m with contentLength := content.length, contentBuf := content }

/-- `clear_content`. -/
def clearContent (m : HttpMessage) : HttpMessage :=
  { m with contentLength := 0, contentBuf := [] }.deleteHeader headerContentType

/-- `concatenate_chunks`: the chunk cache becomes the content. -/
def concatenateChunks (m : HttpMessage) : HttpMessage :=
  { m with contentLength := m.chunkCache.length, contentBuf := m.chunkCache }

/-- `update_transfer_encoding_using_header`; only these two spellings are looked for. -/
def updateTransferEncodingUsingHeader (m : HttpMessage) : HttpMessage :=
  match m.headers.lookup headerTransferEncoding with
  | none => { m with isChunked := false }
  | some v => { m with isChunked := contains v (str "chunked") || contains v (str "Chunked") }

/-- `update_content_length_using_header`; `none` when `parse_uint64` throws. The
trimmed copy that `sl::utils::trim` returns is dropped by the source. -/
def updateContentLengthUsingHeader (x : Externals) (m : HttpMessage) : Option HttpMessage :=
  match m.headers.lookup headerContentLength with
  | none => some { m with contentLength := 0 }
  | some v => (x.parseUint64 v).map fun n => { m with contentLength := n.toNat }

/-- `clear` leaves a message as its constructor does. -/
def clear (_ : HttpMessage) : HttpMessage := {}

/-- The copy constructor. It initialises every field but the cookies. -/
def copy (source : HttpMessage) : HttpMessage := { source with cookieParams := [] }

/-- The assignment operator. The cookies of the target stay. -/
def assign (target source : HttpMessage) : HttpMessage :=
  { source with cookieParams := target.cookieParams }

/-! ## Getters -/

def getHeader (m : HttpMessage) (key : Bytes) : Bytes := m.headers.getValue key

def hasHeader (m : HttpMessage) (key : Bytes) : Bool := (m.headers.lookup key).isSome

/-- `has_header_value`: is `value` one of the header's values, or one element of a list? -/
def hasHeaderValue (m : HttpMessage) (key value : Bytes) : Bool :=
  (m.headers.equalRange key).any fun v =>
    if v.contains comma then (v.splitOn comma).any fun el => iequals value (trim el)
    else iequals value v

/-- The `get_content_length()` bytes behind `get_content()`. -/
def content (m : HttpMessage) : Bytes := m.contentBuf.take m.contentLength

def checkKeepAlive (m : HttpMessage) : Bool :=
  m.getHeader headerConnection ≠ str "close" &&
    (m.versionMajor > 1 || (m.versionMajor ≥ 1 && m.versionMinor ≥ 1))

def getVersionString (m : HttpMessage) : Bytes :=
  stringHttpVersion ++ toString m.versionMajor.toNat ++ [dot] ++ toString m.versionMinor.toNat

/-! ## Sending -/

/-- `make_set_cookie_header`; the last argument is the age if there is one. -/
def makeSetCookieHeader (name value path : Bytes) (maxAge : Option Nat := none) : Bytes :=
  name ++ str "=\"" ++ value ++ str "\"; Version=1" ++
    (if path = [] then [] else str "; Path=" ++ path) ++
    (match maxAge with
      | none => []
      | some age => str "; Max-Age=" ++ toString age)

/-- `get_first_line`, with the line that the subclass's `update_first_line` builds. -/
def getFirstLine (m : HttpMessage) (updated : Bytes) : HttpMessage :=
  if m.firstLine = [] then { m with firstLine := updated } else m

def prepareHeadersForSend (x : Externals) (m : HttpMessage) (keepAlive usingChunks : Bool) :
    HttpMessage :=
  let m := m.changeHeader x headerConnection (if keepAlive then str "Keep-Alive" else str "close")
  if usingChunks then
    if m.chunksSupported then m.changeHeader x headerTransferEncoding (str "chunked") else m
  else if !m.doNotSendContentLength then
    m.changeHeader x headerContentLength (toString m.contentLength)
  else m

/-- `append_headers`: one group of buffers for each header, in iteration order. -/
def appendHeaders (m : HttpMessage) : List Bytes :=
  (m.headers.map fun e => [e.1, headerNameValueDelimiter, e.2, stringCrlf]).flatten ++ [stringCrlf]

/-- `prepare_buffers_for_send`. The `append_cookie_headers` it calls is the empty one
of the base class: the subclasses' functions of that name do not override it. -/
def prepareBuffersForSend (x : Externals) (m : HttpMessage) (updated : Bytes)
    (keepAlive usingChunks : Bool) : HttpMessage × List Bytes :=
  let m := (m.prepareHeadersForSend x keepAlive usingChunks).getFirstLine updated
  (m, [m.firstLine, stringCrlf] ++ m.appendHeaders)

end HttpMessage

/-! ## Requests -/

structure HttpRequest extends HttpMessage where
  method : Bytes := requestMethodGet
  resource : Bytes := []
  originalResource : Bytes := []
  queryString : Bytes := []
  queryParams : Dict := []
  deriving DecidableEq

namespace HttpRequest

/-- A request as its constructor leaves it. -/
def fresh : HttpRequest := {}

def setMethod (r : HttpRequest) (s : Bytes) : HttpRequest := { r with method := s, firstLine := [] }

def setResource (r : HttpRequest) (s : Bytes) : HttpRequest :=
  { r with resource := s, originalResource := s, firstLine := [] }

def setQueryString (r : HttpRequest) (s : Bytes) : HttpRequest :=
  { r with queryString := s, firstLine := [] }

def changeResource (r : HttpRequest) (s : Bytes) : HttpRequest := { r with resource := s }

def clear (r : HttpRequest) : HttpRequest :=
  { toHttpMessage := r.toHttpMessage.clear, method := [] }

def addQuery (x : Externals) (r : HttpRequest) (key value : Bytes) : HttpRequest :=
  { r with queryParams := x.insert r.queryParams (key, value) }

def changeQuery (x : Externals) (r : HttpRequest) (key value : Bytes) : HttpRequest :=
  { r with queryParams := r.queryParams.changeValue x key value }

def deleteQuery (r : HttpRequest) (key : Bytes) : HttpRequest :=
  { r with queryParams := r.queryParams.deleteValue key }

/-- `make_query_string`, with `sl::utils::url_encode` as an argument. -/
def makeQueryString (urlEncode : Bytes → Bytes) (params : Dict) : Bytes :=
  [ampersand].intercalate (params.map fun e => urlEncode e.1 ++ [equals] ++ urlEncode e.2)

def useQueryParamsForQueryString (urlEncode : Bytes → Bytes) (r : HttpRequest) : HttpRequest :=
  r.setQueryString (makeQueryString urlEncode r.queryParams)

def useQueryParamsForPostContent (x : Externals) (urlEncode : Bytes → Bytes) (r : HttpRequest) :
    HttpRequest :=
  let content := r.toHttpMessage.setContent (makeQueryString urlEncode r.queryParams)
  let r := { r with toHttpMessage := content }.setMethod requestMethodPost
  { r with toHttpMessage := r.setContentType x contentTypeUrlencoded }

/-- The line that `http_request::update_first_line` builds. -/
def updateFirstLine (r : HttpRequest) : Bytes :=
  r.method ++ [sp] ++ r.resource ++ (if r.queryString = [] then [] else question :: r.queryString) ++
    [sp] ++ r.getVersionString

/-- `get_first_line`: the request with its line cached, and the line. -/
def getFirstLine (r : HttpRequest) : HttpRequest × Bytes :=
  let m := r.toHttpMessage.getFirstLine r.updateFirstLine
  ({ r with toHttpMessage := m }, m.firstLine)

def prepareBuffersForSend (x : Externals) (r : HttpRequest) (keepAlive usingChunks : Bool) :
    HttpRequest × List Bytes :=
  let sent := r.toHttpMessage.prepareBuffersForSend x r.updateFirstLine keepAlive usingChunks
  ({ r with toHttpMessage := sent.1 }, sent.2)

end HttpRequest

/-! ## Responses -/

structure HttpResponse extends HttpMessage where
  statusCode : Nat := 200
  statusMessage : Bytes := str "OK"
  requestMethod : Bytes := []
  deriving DecidableEq

namespace HttpResponse

def setStatusCode (s : HttpResponse) (n : Nat) : HttpResponse :=
  { s with statusCode := n, firstLine := [] }

def setStatusMessage (s : HttpResponse) (msg : Bytes) : HttpResponse :=
  { s with statusMessage := msg, firstLine := [] }

def clear (s : HttpResponse) : HttpResponse :=
  { toHttpMessage := s.toHttpMessage.clear, statusCode := 200, statusMessage := str "OK",
    requestMethod := [] }

/-- The copy constructor. -/
def copy (source : HttpResponse) : HttpResponse :=
  { source with toHttpMessage := source.toHttpMessage.copy }

/-- The assignment operator that the compiler declares. -/
def assign (target source : HttpResponse) : HttpResponse :=
  { source with toHttpMessage := target.toHttpMessage.assign source.toHttpMessage }

/-- `set_cookie`; the overloads without a path have `/` for it. -/
def setCookie (x : Externals) (s : HttpResponse) (name value : Bytes) (path : Bytes := [slash])
    (maxAge : Option Nat := none) : HttpResponse :=
  { s with toHttpMessage :=
      s.addHeader x headerSetCookie (HttpMessage.makeSetCookieHeader name value path maxAge) }

/-- `http_response::delete_cookie` asks the client to drop the cookie. -/
def deleteCookie (x : Externals) (s : HttpResponse) (name : Bytes) (path : Bytes := [slash]) :
    HttpResponse :=
  s.setCookie x name [] path (some 0)

/-- `update_request_info`. -/
def updateRequestInfo (s : HttpResponse) (r : HttpRequest) : HttpResponse :=
  let s := { s with requestMethod := r.method }
  if r.versionMajor = 1 ∧ r.versionMinor ≥ 1 then { s with chunksSupported := true }
  else if r.versionMajor = 0 then
    { s with statusCode := 0, statusMessage := [], versionMajor := 0, versionMinor := 0,
             firstLine := [] }
  else s

/-- A response as the constructor that takes a request leaves it. -/
def ofRequest (r : HttpRequest) : HttpResponse := updateRequestInfo {} r

def isBodyAllowed (s : HttpResponse) : Bool := s.requestMethod ≠ requestMethodHead

/-- The line that `http_response::update_first_line` builds. -/
def updateFirstLine (s : HttpResponse) : Bytes :=
  s.getVersionString ++ [sp] ++ toString s.statusCode ++ [sp] ++ s.statusMessage

/-- `get_first_line`: the response with its line cached, and the line. -/
def getFirstLine (s : HttpResponse) : HttpResponse × Bytes :=
  let m := s.toHttpMessage.getFirstLine s.updateFirstLine
  ({ s with toHttpMessage := m }, m.firstLine)

def prepareBuffersForSend (x : Externals) (s : HttpResponse) (keepAlive usingChunks : Bool) :
    HttpResponse × List Bytes :=
  let sent := s.toHttpMessage.prepareBuffersForSend x s.updateFirstLine keepAlive usingChunks
  ({ s with toHttpMessage := sent.1 }, sent.2)

end HttpResponse

end Pion
