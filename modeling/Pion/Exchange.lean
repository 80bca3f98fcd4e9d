import Pion.HttpRequestReader
import Pion.HttpResponseWriter

/-!
# The writes of a connection

What is written to a connection while requests are read and answered. Two components write: as
soon as the headers are parsed, `handle_request_after_headers_parsed` answers
`Expect: 100-continue` with an interim response, and nothing waits for that write; and whatever
takes over the request answers it, with a response writer or with the handshake of a WebSocket.

An `async_write` completes later, so a connection is its `Session` together with the writes that
have been started and have not completed. A handler that answers before it returns is one whose
send is the next event; how it fills its writer is up to the handler. What a WebSocket writes
behind its handshake is left out, and so is the mutex of the server.
-/

namespace Pion

def responseFullmessage100Continue : Bytes := str "HTTP/1.1 100 Continue\r\n\r\n"

/-- An `async_write` that has not completed, by what waits for it. -/
inductive OutstandingWrite where
  /-- Of `RESPONSE_FULLMESSAGE_100_CONTINUE`; its completion handler is a no-op. -/
  | interim (buffer : Bytes)
  /-- Of `send_chunk`; its completion handler has the writer. -/
  | chunk (writer : HttpResponseWriter) (buffers : List Bytes)
  /-- Of `send` or `send_final_chunk`; its completion handler is `handle_write`. -/
  | last (buffers : List Bytes)
  /-- Of the handshake of a WebSocket, which goes on when it has been sent. -/
  | handshake

def OutstandingWrite.isInterim : OutstandingWrite → Bool
  | .interim _ => true
  | .chunk _ _ | .last _ | .handshake => false

/-- The interim response of `handle_request_after_headers_parsed`. -/
def HttpServer.interimResponse (m : HttpRequest) (ec : Option ErrorValue) (rc : Tribool) :
    List OutstandingWrite :=
  if ec.isSome ∨ rc = .false then []
  else if iequals (str "100-continue") (m.getHeader (str "Expect")) then
    [.interim responseFullmessage100Continue]
  else []

/-! ## The writes of the hook -/

/-- What `finish_header_parsing` writes: it calls the hook unless there is no framing. -/
def interimAfterHeaders (x : Externals) (g : Progress) : List OutstandingWrite :=
  let s := beforeFraming x g.parser g.msg
  match decideFraming x s.1 s.2 with
  | none => []
  | some (_, m, rc) => HttpServer.interimResponse m g.ec rc

/-- What `PARSE_HEADERS` and `PARSE_FOOTERS` of the loop in `parse` write. -/
def interimHeadersCase (x : Externals) (g : Progress) : List OutstandingWrite :=
  let r := parseHeaders x g
  if r.2 = .true ∧ r.1.parser.messageParseState = .headers then interimAfterHeaders x r.1 else []

/-- What one pass of the loop in `parse` writes. -/
def interimSwitch (x : Externals) (g : Progress) : List OutstandingWrite :=
  match g.parser.messageParseState with
  | .start => interimHeadersCase x { g with parser := { g.parser with messageParseState := .headers } }
  | .headers | .footers => interimHeadersCase x g
  | .chunks | .content | .contentNoLength | .end => []

/-- What the loop in `parse` writes, along the passes of `parseLoop`. -/
def interimLoop (x : Externals) (hook : Hook) : Nat → Progress → Nat → List OutstandingWrite
  | 0, _, _ => []
  | n + 1, g, total =>
    interimSwitch x g ++
      match parseSwitch x hook g total with
      | (g', total', .ok .indeterminate) =>
        if g'.unread = [] then [] else interimLoop x hook n g' total'
      | _ => []

/-- What a call of `parse` writes. -/
def interimParse (x : Externals) (hook : Hook) (p : HttpParser) (m : HttpRequest)
    (ec : Option ErrorValue)
    (buf : Bytes) : List OutstandingWrite :=
  interimLoop x hook 3 { parser := p, msg := noteMissingPackets m, ec := ec, unread := buf } 0

/-! ## Exchanges -/

/-- Who is about to answer the request. -/
inductive Responder where
  | nobody
  /-- A handler that has the writer. -/
  | handler (writer : HttpResponseWriter)
  /-- A WebSocket in front of its handshake. -/
  | websocket

structure Exchange where
  http : HttpServer
  session : Session
  responder : Responder := .nobody
  writes : List OutstandingWrite := []

/-- What a handler does with its writer in front of a send. -/
inductive WriterCall where
  | write (data : Bytes)
  | writeNocopy (data : Bytes)
  | clear
  | supportsChunkedMessages (b : Bool)
  /-- Through the reference that `get_response` returns. -/
  | getResponse (f : HttpResponse → HttpResponse)

def WriterCall.perform (w : HttpResponseWriter) : WriterCall → HttpResponseWriter
  | .write data => w.write data
  | .writeNocopy data => w.writeNocopy data
  | .clear => w.clear
  | .supportsChunkedMessages b => w.supportsChunkedMessages b
  | .getResponse f => { w with response := f w.response }

namespace Exchange

/-- The end of `handle_request`: who has the request now. -/
def takeOver (s : Exchange) : Exchange :=
  { s with responder :=
      match s.session.phase with
      | .handling .badRequest | .handling .notFound | .handling .rootOptions | .handling (.handler _) =>
        .handler (HttpResponseWriter.new s.session.conn s.session.reader.request)
      | .handling (.websocket _ _ _) => .websocket
      | .handling .finish | .reading | .closed | .failed _ => .nobody }

/-- `consume_bytes`, as it goes on from `c`. -/
def consumeBytes (x : Externals) (s : Exchange) (c : Session) : Exchange :=
  takeOver { s with
    session := c.consumeBytes x s.http
    writes := s.writes ++ interimParse x s.http.handleRequestAfterHeadersParsed c.reader.parser
      c.reader.request none c.unread }

/-- `receive`, as it goes on from `c`. -/
def receive (x : Externals) (s : Exchange) (c : Session) : Exchange :=
  if c.conn.isPipelined then
    let pos := c.conn.loadReadPos
    s.consumeBytes x { c with
      conn := c.conn.setLifecycle .close
      reader := { c.reader with readPtr := pos.1, readEndPtr := pos.2 } }
  else
    { s with
      session := { c with conn := c.conn.setLifecycle .close, phase := .reading }
      responder := .nobody }

/-- `handle_connection`. -/
def handleConnection (x : Externals) (s : Exchange) (i j : Nat) : Exchange :=
  s.receive x { s.session with reader := HttpRequestReader.new i j }

/-- The connection has been accepted. -/
def accepted (x : Externals) (http : HttpServer) (i j : Nat) : Exchange :=
  handleConnection x { http := http, session := Session.initial } i j

/-- The read completes with some bytes. -/
def readCompletes (x : Externals) (s : Exchange) (data : Bytes) : Exchange :=
  s.consumeBytes x { s.session with
    conn := s.session.conn.readSome data
    reader := { s.session.reader with readPtr := 0, readEndPtr := data.length }
    received := s.session.received ++ data }

/-- `handle_read_error`. -/
def handleReadError (x : Externals) (s : Exchange) : Exchange :=
  takeOver { s with session := s.session.handleReadError x s.http }

/-- `finish_connection`. -/
def finishConnection (x : Externals) (s : Exchange) (i j : Nat) : Exchange :=
  if s.http.listening ∧ s.session.conn.getKeepAlive then s.handleConnection x i j
  else { s with session := { s.session with phase := .closed }, responder := .nobody }

/-- A send has been called: the write is outstanding, or the connection was lost. -/
def sent (x : Externals) (s : Exchange) (r : HttpResponseWriter × Send)
    (waits : HttpResponseWriter → List Bytes → OutstandingWrite) (i j : Nat) : Exchange :=
  let s := { s with session := { s.session with conn := r.1.tcpConn }, responder := .nobody }
  match r.2 with
  | .write buffers => { s with writes := s.writes ++ [waits r.1 buffers] }
  | .finish => s.finishConnection x i j

/-- A write has completed, well or not. -/
def completed (x : Externals) (s : Exchange) (w : OutstandingWrite) (i j : Nat) : Exchange :=
  match w with
  | .interim _ => s
  | .chunk writer _ => { s with responder := .handler writer }
  | .last _ => s.finishConnection x i j
  | .handshake => s

/-- What can happen to a connection. The numbers are what the chunk counters of the next reader hold. -/
inductive Event where
  | read (data : Bytes)
  | readError
  /-- `tcp_conn->finish()`, by `handle_request` or by a WebSocket that is destroyed. -/
  | finish (i j : Nat)
  /-- The handler works on its writer. -/
  | call (c : WriterCall)
  | send (i j : Nat)
  | sendChunk (i j : Nat)
  | sendFinalChunk (i j : Nat)
  /-- A WebSocket sends its handshake. -/
  | start
  /-- One of the outstanding writes completes. -/
  | written (k i j : Nat)
  /-- The socket is closed, by the application for one. -/
  | close
  /-- The server stops listening, and closes its connections or not. -/
  | stop (waitUntilFinished : Bool)

/-- The writer that is about to send, on the connection as it is now. -/
def writer (s : Exchange) : Option HttpResponseWriter :=
  match s.responder with
  | .handler w => some { w with tcpConn := s.session.conn }
  | .nobody | .websocket => none

def step (x : Externals) (s : Exchange) : Event → Option Exchange
  | .read data =>
    if s.session.phase = .reading ∧ data ≠ [] ∧ data.length ≤ readBufferSize then
      some (s.readCompletes x data)
    else none
  | .readError => if s.session.phase = .reading then some (s.handleReadError x) else none
  | .finish i j =>
    match s.session.phase, s.responder with
    | .handling .finish, _ | .handling (.websocket _ _ _), .nobody => some (s.finishConnection x i j)
    | _, _ => none
  | .call c => s.writer.map fun w => { s with responder := .handler (c.perform w) }
  | .send i j =>
    match s.writer with
    -- `send_chunk` is followed by `send_chunk` or `send_final_chunk`
    | some w => if w.sendingChunks then none else some (s.sent x (w.send x) (fun _ => .last) i j)
    | none => none
  | .sendChunk i j => s.writer.map fun w => s.sent x (w.sendChunk x) .chunk i j
  | .sendFinalChunk i j => s.writer.map fun w => s.sent x (w.sendFinalChunk x) (fun _ => .last) i j
  | .start =>
    match s.responder with
    | .websocket => some { s with responder := .nobody, writes := s.writes ++ [.handshake] }
    | .nobody | .handler _ => none
  | .written k i j =>
    s.writes[k]?.map fun w => { s with writes := s.writes.eraseIdx k }.completed x w i j
  | .close =>
    some { s with session := { s.session with conn := { s.session.conn with isOpen := false } } }
  | .stop waitUntilFinished =>
    some { s with
      http := { s.http with listening := false }
      session := if waitUntilFinished then s.session
        else { s.session with conn := { s.session.conn with isOpen := false } } }

end Exchange

end Pion
