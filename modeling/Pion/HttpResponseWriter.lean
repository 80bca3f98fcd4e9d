import Pion.HttpMessage
import Pion.TcpConnection

/-!
# The response writer

`http_response_writer`: content collects in buffers, and each send turns what has
collected into write buffers, with the headers in front of the first ones. A buffer
is the bytes it refers to, whether they were copied into the payload cache or
belong to the caller; the cache itself only keeps the copies alive.
-/

namespace Pion

structure HttpResponseWriter where
  tcpConn : TcpConnection
  contentBuffers : List Bytes := []
  contentLength : Nat := 0
  clientSupportsChunks : Bool := true
  sendingChunks : Bool := false
  sentHeaders : Bool := false
  response : HttpResponse

/-- What a send does with the connection. -/
inductive Send where
  /-- `async_write` of these buffers. -/
  | write (buffers : List Bytes)
  /-- The connection is gone: `tcp_conn->finish()`. -/
  | finish
  deriving DecidableEq

/-- The bytes of a send. -/
def Send.bytes : Send → Bytes
  | .write buffers => buffers.flatten
  | .finish => []

namespace HttpResponseWriter

def new (conn : TcpConnection) (r : HttpRequest) : HttpResponseWriter :=
  { tcpConn := conn, response := HttpResponse.ofRequest r
    clientSupportsChunks := (HttpResponse.ofRequest r).chunksSupported }

/-- The setter `supports_chunked_messages`. -/
def supportsChunkedMessages (w : HttpResponseWriter) (b : Bool) : HttpResponseWriter :=
  { w with clientSupportsChunks := b }

def clear (w : HttpResponseWriter) : HttpResponseWriter :=
  { w with contentBuffers := [], contentLength := 0 }

/-- `write`. -/
def write (w : HttpResponseWriter) (data : Bytes) : HttpResponseWriter :=
  if w.response.isBodyAllowed ∧ data.length > 0 then
    { w with contentBuffers := w.contentBuffers ++ [data],
             contentLength := w.contentLength + data.length }
  else w

/-- `write_nocopy`, which differs in who owns the bytes. -/
def writeNocopy (w : HttpResponseWriter) (data : Bytes) : HttpResponseWriter := w.write data

/-- `prepare_buffers_for_send`: the header block. -/
def prepareBuffersForSend (x : Externals) (w : HttpResponseWriter) :
    HttpResponseWriter × List Bytes :=
  let response := if w.contentLength > 0 then
    { w.response with contentLength := w.contentLength } else w.response
  let sent := response.prepareBuffersForSend x w.tcpConn.getKeepAlive w.sendingChunks
  ({ w with response := sent.1 }, sent.2)

/-- `sprintf("%lx", content_length)`. -/
def chunkLength (w : HttpResponseWriter) : Bytes := toText 16 w.contentLength

/-- `prepare_write_buffers`, behind the header block. -/
def contentWriteBuffers (w : HttpResponseWriter) (sendFinalChunk : Bool) : List Bytes :=
  let chunking := w.clientSupportsChunks && w.sendingChunks
  let content :=
    -- a chunk of no bytes would be the last one
    if w.contentLength > 0 then
      if chunking then [w.chunkLength, stringCrlf] ++ w.contentBuffers ++ [stringCrlf]
      else w.contentBuffers
    else []
  let final := if sendFinalChunk && chunking then [str "0", stringCrlf, stringCrlf] else []
  content ++ final

/-- `prepare_write_buffers`; the headers are sent once. -/
def prepareWriteBuffers (x : Externals) (w : HttpResponseWriter) (sendFinalChunk : Bool) :
    HttpResponseWriter × List Bytes :=
  if w.sentHeaders then (w, w.contentWriteBuffers sendFinalChunk)
  else
    let prepared := w.prepareBuffersForSend x
    let w := { prepared.1 with sentHeaders := true }
    (w, prepared.2 ++ w.contentWriteBuffers sendFinalChunk)

def sendMoreData (x : Externals) (w : HttpResponseWriter) (sendFinalChunk : Bool) :
    HttpResponseWriter × Send :=
  if w.tcpConn.isOpen then
    let prepared := w.prepareWriteBuffers x sendFinalChunk
    (prepared.1, .write prepared.2)
  else (w, .finish)

def send (x : Externals) (w : HttpResponseWriter) : HttpResponseWriter × Send :=
  w.sendMoreData x false

def sendChunk (x : Externals) (w : HttpResponseWriter) : HttpResponseWriter × Send :=
  let w := { w with sendingChunks := true }
  -- otherwise the content ends with the connection
  let w := if w.clientSupportsChunks then w
    else { w with tcpConn := w.tcpConn.setLifecycle .close }
  if w.tcpConn.isOpen then w.sendMoreData x false else (w, .finish)

def sendFinalChunk (x : Externals) (w : HttpResponseWriter) : HttpResponseWriter × Send :=
  { w with sendingChunks := true }.sendMoreData x true

end HttpResponseWriter

end Pion
