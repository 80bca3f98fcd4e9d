import Pion.HttpMessage

/-!
# Calls on messages

The public operations of `http_message`, `http_request` and `http_response` that change an
object, as data, so that a sequence of calls is a list. A call that throws changes nothing.

Some getters return a reference that is not `const`. What the caller may write through it
is one more operation here, under a name that begins with `write`.
-/

namespace Pion

/-- The operations of `http_message`. -/
inductive MessageCall where
  | setIsValid (b : Bool)
  | setChunksSupported (b : Bool)
  | setDoNotSendContentLength
  | setVersionMajor (n : UInt16)
  | setVersionMinor (n : UInt16)
  | setContentLength (n : Nat)
  | setStatus (status : DataStatus)
  | setMissingPackets (b : Bool)
  | setDataAfterMissingPacket (b : Bool)
  | updateContentLengthUsingHeader
  | updateTransferEncodingUsingHeader
  | createContentBuffer
  | setContent (content : Bytes)
  | clearContent
  | setContentType (type : Bytes)
  | addHeader (key value : Bytes)
  | changeHeader (key value : Bytes)
  | deleteHeader (key : Bytes)
  | addCookie (key value : Bytes)
  | changeCookie (key value : Bytes)
  | deleteCookie (key : Bytes)
  | concatenateChunks
  /-- Through `get_content`. -/
  | writeContent (content : Bytes)
  /-- Through `get_chunk_cache`. -/
  | writeChunkCache (cache : Bytes)
  /-- Through `get_headers`. -/
  | writeHeaders (headers : Dict)
  /-- Through `get_cookies`. -/
  | writeCookies (cookies : Dict)

def MessageCall.run (x : Externals) (m : HttpMessage) : MessageCall → HttpMessage
  | setIsValid b => { m with isValid := b }
  | setChunksSupported b => { m with chunksSupported := b }
  | setDoNotSendContentLength => { m with doNotSendContentLength := true }
  | setVersionMajor n => m.setVersionMajor n
  | setVersionMinor n => m.setVersionMinor n
  | setContentLength n => { m with contentLength := n }
  | setStatus status => { m with status := status }
  | setMissingPackets b => { m with hasMissingPackets := b }
  | setDataAfterMissingPacket b => { m with hasDataAfterMissing := b }
  | updateContentLengthUsingHeader => (m.updateContentLengthUsingHeader x).getD m
  | updateTransferEncodingUsingHeader => m.updateTransferEncodingUsingHeader
  | createContentBuffer => m.createContentBuffer
  | setContent content => m.setContent content
  | clearContent => m.clearContent
  | setContentType type => m.setContentType x type
  | addHeader key value => m.addHeader x key value
  | changeHeader key value => m.changeHeader x key value
  | deleteHeader key => m.deleteHeader key
  | addCookie key value => m.addCookie x key value
  | changeCookie key value => m.changeCookie x key value
  | deleteCookie key => m.deleteCookie key
  | concatenateChunks => m.concatenateChunks
  | writeContent content => { m with contentBuf := content }
  | writeChunkCache cache => { m with chunkCache := cache }
  | writeHeaders headers => { m with headers := headers }
  | writeCookies cookies => { m with cookieParams := cookies }

/-- The operations of `http_request`. -/
inductive RequestCall where
  | message (call : MessageCall)
  | setMethod (s : Bytes)
  | setResource (s : Bytes)
  | changeResource (s : Bytes)
  | setQueryString (s : Bytes)
  | addQuery (key value : Bytes)
  | changeQuery (key value : Bytes)
  | deleteQuery (key : Bytes)
  | useQueryParamsForQueryString
  | useQueryParamsForPostContent
  /-- The overload of `set_content` for a pointer and a size. -/
  | setContentSpan (content : Bytes)
  | clear
  | getFirstLine
  | prepareBuffersForSend (keepAlive usingChunks : Bool)
  /-- Through `get_queries`. -/
  | writeQueries (queries : Dict)

def RequestCall.run (x : Externals) (urlEncode : Bytes → Bytes) (r : HttpRequest) :
    RequestCall → HttpRequest
  | message call => { r with toHttpMessage := call.run x r.toHttpMessage }
  | setMethod s => r.setMethod s
  | setResource s => r.setResource s
  | changeResource s => r.changeResource s
  | setQueryString s => r.setQueryString s
  | addQuery key value => r.addQuery x key value
  | changeQuery key value => r.changeQuery x key value
  | deleteQuery key => r.deleteQuery key
  | useQueryParamsForQueryString => r.useQueryParamsForQueryString urlEncode
  | useQueryParamsForPostContent => r.useQueryParamsForPostContent x urlEncode
  | setContentSpan content =>
    if content = [] then r else { r with toHttpMessage := r.toHttpMessage.setContent content }
  | clear => r.clear
  | getFirstLine => r.getFirstLine.1
  | prepareBuffersForSend keepAlive usingChunks => (r.prepareBuffersForSend x keepAlive usingChunks).1
  | writeQueries queries => { r with queryParams := queries }

/-- The operations of `http_response`. -/
inductive ResponseCall where
  | message (call : MessageCall)
  | setStatusCode (n : Nat)
  | setStatusMessage (msg : Bytes)
  | setCookie (name value path : Bytes) (maxAge : Option Nat)
  | deleteCookie (name path : Bytes)
  | updateRequestInfo (r : HttpRequest)
  | clear
  | getFirstLine
  | prepareBuffersForSend (keepAlive usingChunks : Bool)

def ResponseCall.run (x : Externals) (s : HttpResponse) : ResponseCall → HttpResponse
  | message call => { s with toHttpMessage := call.run x s.toHttpMessage }
  | setStatusCode n => s.setStatusCode n
  | setStatusMessage msg => s.setStatusMessage msg
  | setCookie name value path maxAge => s.setCookie x name value path maxAge
  | deleteCookie name path => s.deleteCookie x name path
  | updateRequestInfo r => s.updateRequestInfo r
  | clear => s.clear
  | getFirstLine => s.getFirstLine.1
  | prepareBuffersForSend keepAlive usingChunks => (s.prepareBuffersForSend x keepAlive usingChunks).1

/-- What a program can make a response: built for a request, copied, assigned, called. -/
inductive HttpResponse.Made (x : Externals) : HttpResponse → Prop
  | new (r : HttpRequest) : Made x (HttpResponse.ofRequest r)
  | copy {s : HttpResponse} : Made x s → Made x s.copy
  | assign {target source : HttpResponse} :
      Made x target → Made x source → Made x (target.assign source)
  | call {s : HttpResponse} (c : ResponseCall) : Made x s → Made x (c.run x s)

end Pion
