import Pion.HttpServer

/-!
# The request reader

`http_request_reader`, and with it what becomes of one connection of a server that is
listening: a reader takes bytes until it has a request, the request goes to
`handle_request`, and when the handler has answered and calls `finish()` a new reader
starts where the last one left off.

Everything a connection does happens on its strand, one completion handler after
another, so a connection is a state machine. The timers are left out: a timeout shows
as a read that fails.
-/

namespace Pion

/-- A reader: the parser, the request it fills, and its two read pointers, which point
into the connection's read buffer. -/
structure HttpRequestReader where
  parser : HttpParser
  request : HttpRequest
  readPtr : Nat
  readEndPtr : Nat

namespace HttpRequestReader

/-- `http_parser(true)`: the only parameter of that constructor is the largest content
length, so it is one. -/
def maxContentLength : Nat := 1

/-- A new reader; the chunk counters hold whatever was in memory. -/
def new (sizeGarbage readGarbage : Nat) : HttpRequestReader where
  parser := HttpParser.fresh maxContentLength sizeGarbage readGarbage
  request := HttpRequest.fresh
  readPtr := 0
  readEndPtr := 0

/-- `eof()`. -/
def eof (r : HttpRequestReader) : Bool := r.readPtr ≥ r.readEndPtr

/-- `check_premature_eof`, with the exception that may leave `finish`. -/
def checkPrematureEof (x : Externals) (r : HttpRequestReader) :
    HttpRequestReader × Except Exn Bool :=
  if r.parser.messageParseState ≠ .contentNoLength then (r, .ok true)
  else
    let p := { r.parser with messageParseState := .end }
    match finish x p { r.request with toHttpMessage := r.request.concatenateChunks } with
    | (m, none) => ({ r with parser := p, request := m }, .ok false)
    | (m, some e) => ({ r with parser := p, request := m }, .error e)

end HttpRequestReader

/-- What a connection waits for. -/
inductive Phase where
  /-- For `async_read_some`. -/
  | reading
  /-- For the call of `finish()`, by whatever took over the request. -/
  | handling (d : Dispatch)
  /-- For nothing: it has been removed from the server's pool. -/
  | closed
  /-- For nothing: an exception has left the completion handler. -/
  | failed (e : Exn)
  deriving DecidableEq

/-- A request as it was passed to `handle_request`, and what its payload handler was given. -/
structure Handled where
  request : HttpRequest
  payload : Bytes
  deriving DecidableEq

/-- One connection of a server. -/
structure Session where
  conn : TcpConnection
  /-- The reader at work, or the last one that was. -/
  reader : HttpRequestReader
  phase : Phase
  /-- The requests passed to `handle_request` so far. -/
  handled : List Handled
  /-- Not part of the source: the bytes that the socket has delivered so far. -/
  received : Bytes

namespace Session

/-- The bytes that the reader has not parsed yet. -/
def unread (c : Session) : Bytes := c.conn.span c.reader.readPtr c.reader.readEndPtr

/-- `finished_reading`. -/
def finishedReading (server : HttpServer) (c : Session) (ec : ReadError) : Session :=
  let r := server.handleRequest c.conn ec c.reader.request
  { c with
    conn := r.1
    phase := match r.2 with | .ok d => .handling d | .error e => .failed e
    handled := c.handled ++ [{ request := c.reader.request, payload := c.reader.parser.delivered }] }

/-- The connection's lifecycle after a request has been parsed, and the bookmark. -/
def keepPosition (conn : TcpConnection) (r : HttpRequestReader) : TcpConnection :=
  if r.request.checkKeepAlive then
    if r.eof then conn.setLifecycle .keepalive
    else (conn.setLifecycle .pipelined).saveReadPos r.readPtr r.readEndPtr
  else conn.setLifecycle .close

/-- What `consume_bytes` does with the result of `parse`. -/
def afterParse (server : HttpServer) (c : Session) (r : ParseResult) : Session :=
  let reader : HttpRequestReader :=
    { parser := r.parser, request := r.msg, readPtr := c.reader.readEndPtr - r.unread.length,
      readEndPtr := c.reader.readEndPtr }
  match r.rc with
  | .error e => { c with reader := reader, phase := .failed e }
  | .ok .true =>
    finishedReading server { c with reader := reader, conn := keepPosition c.conn reader }
      (.ofParser r.ec)
  | .ok .false =>
    finishedReading server { c with
      reader := { reader with request := { reader.request with isValid := false } }
      conn := c.conn.setLifecycle .close } (.ofParser r.ec)
  | .ok .indeterminate => { c with reader := reader, phase := .reading }

/-- `consume_bytes` on the bytes between the read pointers. -/
def consumeBytes (x : Externals) (server : HttpServer) (c : Session) : Session :=
  afterParse server c
    (parse x server.handleRequestAfterHeadersParsed c.reader.parser c.reader.request none c.unread)

/-- `receive`: go on behind the bookmark, or wait for the socket. -/
def receive (x : Externals) (server : HttpServer) (c : Session) : Session :=
  if c.conn.isPipelined then
    let pos := c.conn.loadReadPos
    consumeBytes x server { c with
      conn := c.conn.setLifecycle .close
      reader := { c.reader with readPtr := pos.1, readEndPtr := pos.2 } }
  else { c with conn := c.conn.setLifecycle .close, phase := .reading }

/-- `handle_connection`. -/
def handleConnection (x : Externals) (server : HttpServer) (c : Session) (i j : Nat) : Session :=
  receive x server { c with reader := HttpRequestReader.new i j }

/-- A connection in front of its first reader. -/
def initial : Session where
  conn := {}
  reader := HttpRequestReader.new 0 0
  phase := .reading
  handled := []
  received := []

/-- The connection has been accepted. -/
def accepted (x : Externals) (server : HttpServer) (i j : Nat) : Session :=
  handleConnection x server initial i j

/-- The read completes with some bytes: `consume_bytes` with a new read buffer. -/
def readCompletes (x : Externals) (server : HttpServer) (c : Session) (data : Bytes) : Session :=
  consumeBytes x server { c with
    conn := c.conn.readSome data
    reader := { c.reader with readPtr := 0, readEndPtr := data.length }
    received := c.received ++ data }

/-- `handle_read_error`. -/
def handleReadError (x : Externals) (server : HttpServer) (c : Session) : Session :=
  let c := { c with conn := c.conn.setLifecycle .close }
  match c.reader.checkPrematureEof x with
  | (r, .error e) => { c with reader := r, phase := .failed e }
  | (r, .ok false) => finishedReading server { c with reader := r } .ok
  | (r, .ok true) => finishedReading server { c with reader := r } .socket

/-- `finish_connection`. -/
def finishConnection (x : Externals) (server : HttpServer) (c : Session) (i j : Nat) : Session :=
  if server.listening ∧ c.conn.getKeepAlive then handleConnection x server c i j
  else { c with phase := .closed }

end Session

/-- The completion handlers of a connection. A read is given at least one byte and at most
as many as the read buffer holds. -/
inductive Session.Step (x : Externals) (server : HttpServer) : Session → Session → Prop where
  | read (c : Session) (data : Bytes) (h : c.phase = .reading) (hne : data ≠ [])
      (hle : data.length ≤ readBufferSize) : Step x server c (c.readCompletes x server data)
  | readError (c : Session) (h : c.phase = .reading) : Step x server c (c.handleReadError x server)
  | finish (c : Session) (d : Dispatch) (i j : Nat) (h : c.phase = .handling d) :
      Step x server c (c.finishConnection x server i j)

end Pion
