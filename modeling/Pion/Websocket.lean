import Pion.HttpServer

/-!
# WebSockets

`websocket`: what becomes of a connection after the upgrade.

The frame format itself is not in this repository. `WebsocketLibrary` stands for the
library it comes from: what its `frame` class says about the bytes it is made from, and
the texts that its other functions make.

A websocket is owned by one completion handler at a time, or by the application, so it is
a state machine. The bytes of a read are given to the handler, whichever array they were
read into. A payload buffer is kept as its bytes, so there is no payload cache.
-/

namespace Pion

/-- `sl::websocket::frame_type`. -/
inductive FrameType where
  | continuation | text | binary | close | ping | pong | invalid
  deriving DecidableEq, Repr

/-- What an instance of `sl::websocket::frame` says about the bytes behind it. -/
structure Frame where
  isWellFormed : Bool
  isComplete : Bool
  isFinal : Bool
  type : FrameType
  /-- The size of the header and the payload together. -/
  size : Nat
  payloadLength : Nat
  payloadUnmasked : Bytes
  deriving DecidableEq

/-- The library `sl::websocket`. -/
structure WebsocketLibrary where
  /-- The constructor of `frame`. -/
  frame : Bytes → Frame
  makeHeader : FrameType → Nat → Bytes
  makeResponseLine : Bytes
  makeResponseHeaders : Bytes → List (Bytes × Bytes)

/-- `websocket::close_status`. -/
inductive CloseStatus where
  | normal | goingAway | protocolError | overflow | error
  deriving DecidableEq, Repr

/-- The four bytes that `send_close` sends: a close frame with a status code. -/
def CloseStatus.bytes : CloseStatus → Bytes
  | .normal => [0x88, 0x02, 0x03, 0xe8]
  | .goingAway => [0x88, 0x02, 0x03, 0xe9]
  | .protocolError => [0x88, 0x02, 0x03, 0xea]
  | .overflow => [0x88, 0x02, 0x03, 0xf1]
  | .error => [0x88, 0x02, 0x03, 0xf3]

/-- An element of `frames`, by what it points to. -/
inductive FrameView where
  /-- A copy in `frames_cache`. -/
  | cached (bytes : Bytes)
  /-- The front of `receive_buffer`. -/
  | inBuffer
  deriving DecidableEq

/-- What the application is called with: `message_type()` and all of `message_data()`. -/
structure WsMessage where
  type : FrameType
  data : Bytes
  deriving DecidableEq

/-- The handler of `send_internal`. -/
inductive AfterSend where
  | onOpen
  | receive
  /-- A handler of the application, given to `send_message`. -/
  | handler
  deriving DecidableEq

/-- A handler that was posted to the strand. -/
inductive Posted where
  | processReceiveBuffer
  | sendInternal (next : AfterSend)
  deriving DecidableEq

/-- Who owns a websocket. -/
inductive WsPhase where
  | created
  /-- The application, from `on_open`, `on_message` or a handler of `send_message`. -/
  | application
  | posted (task : Posted)
  | sending (next : AfterSend)
  | receiving
  | closing
  /-- Nobody: it has been destroyed. -/
  | closed
  deriving DecidableEq

structure Websocket where
  request : HttpRequest
  receiveBufferMaxSize : Nat
  framesMaxCount : Nat
  payloadBuffers : List Bytes := []
  payloadLength : Nat := 0
  receiveBuffer : Bytes := []
  framesCache : List Bytes := []
  frames : List FrameView := []
  phase : WsPhase := .created
  /-- What goes out for the calls of `async_write` so far. -/
  sent : List Bytes := []
  /-- The calls of `on_message` so far. -/
  messages : List WsMessage := []
  /-- What the write of `send_close` will find where its status was, unless it is finished at once.
  A websocket is closed once, so this is known from the start. -/
  lateStatus : Option (Vector UInt8 4) := none

namespace Websocket

/-- The default of `max_receive_cache_size_bytes`. -/
def defaultReceiveBufferMaxSize : Nat := 1024 * 1024

/-- The default of `max_cached_frames_count`. -/
def defaultFramesMaxCount : Nat := 1024

def new (request : HttpRequest) (receiveBufferMaxSize framesMaxCount : Nat)
    (lateStatus : Option (Vector UInt8 4) := none) : Websocket where
  request := request
  receiveBufferMaxSize := receiveBufferMaxSize
  framesMaxCount := framesMaxCount
  lateStatus := lateStatus

/-! ## Output -/

def write (ws : Websocket) (data : Bytes) : Websocket :=
  if 0 < data.length then
    { ws with
      payloadBuffers := ws.payloadBuffers ++ [data]
      payloadLength := ws.payloadLength + data.length }
  else ws

/-- `write_nocopy`: the same, as long as the caller keeps the data as it is. -/
def writeNocopy (ws : Websocket) (data : Bytes) : Websocket := ws.write data

/-- The first buffer is left free for the header. -/
def clearPayload (ws : Websocket) : Websocket := { ws with payloadBuffers := [[]], payloadLength := 0 }

def prepareHeader (lib : WebsocketLibrary) (ws : Websocket) (msgType : FrameType) : Websocket :=
  { ws with payloadBuffers := ws.payloadBuffers.set 0 (lib.makeHeader msgType ws.payloadLength) }

def prepareHandshake (lib : WebsocketLibrary) (ws : Websocket) : Websocket :=
  let headers := lib.makeResponseHeaders (ws.request.getHeader (str "Sec-WebSocket-Key"))
  let ws := headers.foldl (fun ws ha =>
    (((ws.write ha.1).writeNocopy (str ": ")).write ha.2).writeNocopy (str "\r\n"))
    (ws.write lib.makeResponseLine)
  ws.writeNocopy (str "\r\n")

def sendInternal (ws : Websocket) (next : AfterSend) : Websocket :=
  { ws with phase := .sending next, sent := ws.sent ++ [ws.payloadBuffers.flatten] }

/-- The four bytes behind the address of a status when they are written. The status is a
temporary: it has gone when `async_write` returns, and what is left to write comes later. -/
def statusBytes (ws : Websocket) (status : CloseStatus) : Bytes :=
  match ws.lateStatus with
  | none => status.bytes
  | some found => found.toList

def sendClose (ws : Websocket) (status : CloseStatus) : Websocket :=
  { ws with phase := .closing, sent := ws.sent ++ [ws.statusBytes status] }

def onClose (ws : Websocket) (status : CloseStatus) : Websocket := ws.sendClose status

/-- `close`; the application cannot name a status other than the default, `normal`. -/
def close (ws : Websocket) (status : CloseStatus) : Websocket := ws.onClose status

def sendMessage (lib : WebsocketLibrary) (ws : Websocket) (msgType : FrameType) (next : AfterSend) :
    Websocket :=
  { ws.prepareHeader lib msgType with phase := .posted (.sendInternal next) }

def send (lib : WebsocketLibrary) (ws : Websocket) (msgType : FrameType) : Websocket :=
  ws.sendMessage lib msgType .receive

def start (lib : WebsocketLibrary) (ws : Websocket) : Websocket :=
  (ws.prepareHandshake lib).sendInternal .onOpen

/-! ## Input -/

/-- The bytes that a frame was made from. -/
def viewBytes (ws : Websocket) : FrameView → Bytes
  | .cached bytes => bytes
  | .inBuffer => ws.receiveBuffer

def frameOf (lib : WebsocketLibrary) (ws : Websocket) (v : FrameView) : Frame :=
  lib.frame (ws.viewBytes v)

def messageType (lib : WebsocketLibrary) (ws : Websocket) : FrameType :=
  match ws.frames with
  | [] => .invalid
  | v :: _ => (ws.frameOf lib v).type

/-- Everything that `message_data()` gives: nothing, the payload of one frame, or one
payload after another. -/
def messageData (lib : WebsocketLibrary) (ws : Websocket) : Bytes :=
  match ws.frames with
  | [] => []
  | [v] => (ws.frameOf lib v).payloadUnmasked
  | vs => (vs.map fun v => (ws.frameOf lib v).payloadUnmasked).flatten

def addToReceiveBuffer (ws : Websocket) (buf : Bytes) : Websocket :=
  { ws with receiveBuffer := ws.receiveBuffer ++ buf }

def removeFrameFromReceiveBuffer (ws : Websocket) (frame : Frame) : Websocket :=
  { ws with receiveBuffer := ws.receiveBuffer.drop frame.size }

/-- `add_to_frames_cache`, of the frame at the front of the receive buffer. -/
def addToFramesCache (ws : Websocket) (frame : Frame) : Websocket :=
  let copy := ws.receiveBuffer.take frame.size
  let ws := { ws with
    framesCache := ws.framesCache ++ [copy]
    frames := ws.frames ++ [FrameView.cached copy] }
  ws.removeFrameFromReceiveBuffer frame

def clearFramesCache (lib : WebsocketLibrary) (ws : Websocket) : Websocket :=
  let ws :=
    -- only the last frame can still be in the receive buffer
    match ws.frames.getLast? with
    | some v => ws.removeFrameFromReceiveBuffer (ws.frameOf lib v)
    | none => ws
  { ws with framesCache := [], frames := [] }

def receiveBufferOverflow (ws : Websocket) (addition : Nat) : Bool :=
  ws.receiveBuffer.length + addition > ws.receiveBufferMaxSize

def framesCacheOverflow (ws : Websocket) : Bool := ws.frames.length ≥ ws.framesMaxCount

def receiveInternal (ws : Websocket) : Websocket := { ws with phase := .receiving }

def onOpen (ws : Websocket) : Websocket := { ws with phase := .application }

def onMessage (lib : WebsocketLibrary) (ws : Websocket) : Websocket :=
  { ws with
    phase := .application
    messages := ws.messages ++ [{ type := ws.messageType lib, data := ws.messageData lib }] }

/-- The size of the array that `on_ping` reads the payload into. -/
def pingBufferSize : Nat := 128

def onPing (ws : Websocket) (frame : Frame) : Websocket :=
  let ws := if 0 < frame.payloadLength then ws.write (frame.payloadUnmasked.take pingBufferSize) else ws
  -- what is sent has no header, and `receive` clears all frames, not only this one
  ws.sendInternal .receive

def onContinuation (ws : Websocket) (frame : Frame) : Websocket :=
  if ws.framesCacheOverflow then ws.onClose .overflow
  else { ws.addToFramesCache frame with phase := .posted .processReceiveBuffer }

def processFinalFrame (lib : WebsocketLibrary) (ws : Websocket) (frame : Frame) : Websocket :=
  -- the frame is not copied: it stays at the front of the receive buffer
  let ws := { ws with frames := ws.frames ++ [FrameView.inBuffer] }
  match frame.type with
  | .text | .binary | .continuation => ws.onMessage lib
  | .ping => ws.onPing frame
  | .close => ws.onClose .normal
  | .pong | .invalid => ws.onClose .protocolError

def processReceiveBuffer (lib : WebsocketLibrary) (ws : Websocket) : Websocket :=
  let frame := lib.frame ws.receiveBuffer
  if !frame.isWellFormed then ws.onClose .protocolError
  else if !frame.isComplete then ws.receiveInternal
  else if !frame.isFinal then ws.onContinuation frame
  else ws.processFinalFrame lib frame

def receive (lib : WebsocketLibrary) (ws : Websocket) : Websocket :=
  (ws.clearFramesCache lib).processReceiveBuffer lib

def consume (lib : WebsocketLibrary) (ws : Websocket) (buf : Bytes) : Websocket :=
  if ws.receiveBufferOverflow buf.length then ws.onClose .overflow
  else (ws.addToReceiveBuffer buf).processReceiveBuffer lib

/-! ## Completion handlers -/

def runAfterSend (lib : WebsocketLibrary) (ws : Websocket) : AfterSend → Websocket
  | .onOpen => ws.onOpen
  | .receive => ws.receive lib
  | .handler => { ws with phase := .application }

/-- The write of `send_internal` completes. -/
def sendCompletes (lib : WebsocketLibrary) (ws : Websocket) (next : AfterSend) : Websocket :=
  ws.clearPayload.runAfterSend lib next

/-- The write of `send_internal` fails. -/
def sendFails (ws : Websocket) : Websocket := ws.clearPayload.onClose .error

def runPosted (lib : WebsocketLibrary) (ws : Websocket) : Posted → Websocket
  | .processReceiveBuffer => ws.processReceiveBuffer lib
  | .sendInternal next => ws.sendInternal next

/-- The handler of `send_close`, which gives the websocket to the close handler of the
application; or the application lets go of it. -/
def destroy (ws : Websocket) : Websocket := { ws with phase := .closed }

/-- What a websocket does as long as its connection works, apart from reading: handlers run,
writes complete, and the application, when it has the websocket, writes, sends or receives. -/
inductive Works (lib : WebsocketLibrary) : Websocket → Websocket → Prop where
  | posted (ws : Websocket) (task : Posted) (h : ws.phase = .posted task) :
      Works lib ws (ws.runPosted lib task)
  | sent (ws : Websocket) (next : AfterSend) (h : ws.phase = .sending next) :
      Works lib ws (ws.sendCompletes lib next)
  | write (ws : Websocket) (data : Bytes) (h : ws.phase = .application) : Works lib ws (ws.write data)
  | writeNocopy (ws : Websocket) (data : Bytes) (h : ws.phase = .application) :
      Works lib ws (ws.writeNocopy data)
  | send (ws : Websocket) (msgType : FrameType) (h : ws.phase = .application) :
      Works lib ws (ws.send lib msgType)
  | sendMessage (ws : Websocket) (msgType : FrameType) (h : ws.phase = .application) :
      Works lib ws (ws.sendMessage lib msgType .handler)
  | receive (ws : Websocket) (h : ws.phase = .application) : Works lib ws (ws.receive lib)

/-- The steps by name. -/
inductive Event where
  | start
  | posted
  | sent
  | sendError
  | read (data : Bytes)
  | readError
  | write (data : Bytes)
  | writeNocopy (data : Bytes)
  | send (msgType : FrameType)
  | sendMessage (msgType : FrameType)
  | receive
  | close
  | drop
  | closeSent
  deriving DecidableEq

/-- What an event makes of a websocket, if it is possible. -/
def fire (lib : WebsocketLibrary) (ws : Websocket) (e : Event) : Option Websocket :=
  match ws.phase, e with
  | .created, .start => some (ws.start lib)
  | .posted task, .posted => some (ws.runPosted lib task)
  | .sending next, .sent => some (ws.sendCompletes lib next)
  | .sending _, .sendError => some ws.sendFails
  | .receiving, .read data =>
    if data ≠ [] ∧ data.length ≤ readBufferSize then some (ws.consume lib data) else none
  | .receiving, .readError => some (ws.onClose .error)
  | .application, .write data => some (ws.write data)
  | .application, .writeNocopy data => some (ws.writeNocopy data)
  | .application, .send msgType => some (ws.send lib msgType)
  | .application, .sendMessage msgType => some (ws.sendMessage lib msgType .handler)
  | .application, .receive => some (ws.receive lib)
  | .application, .close => some (ws.close .normal)
  | .application, .drop => some ws.destroy
  | .closing, .closeSent => some ws.destroy
  | _, _ => none

/-- The bytes that `process_receive_buffer` looks at when an event happens, if it is called. -/
def looksAt (lib : WebsocketLibrary) (ws : Websocket) (e : Event) : Option Bytes :=
  match ws.phase, e with
  | .posted .processReceiveBuffer, .posted => some ws.receiveBuffer
  | .sending .receive, .sent => some (ws.clearFramesCache lib).receiveBuffer
  | .application, .receive => some (ws.clearFramesCache lib).receiveBuffer
  | .receiving, .read data =>
    if ws.receiveBufferOverflow data.length then none else some (ws.receiveBuffer ++ data)
  | _, _ => none

/-- Does `process_receive_buffer` come to `send_close`? -/
def closesOnBuffer (lib : WebsocketLibrary) (ws : Websocket) : Bool :=
  let frame := lib.frame ws.receiveBuffer
  if !frame.isWellFormed then true
  else if !frame.isComplete then false
  else if !frame.isFinal then ws.framesCacheOverflow
  else
    match frame.type with
    | .close | .pong | .invalid => true
    | .text | .binary | .continuation | .ping => false

/-- Does an event, when it happens, come to `send_close`? -/
def closesAt (lib : WebsocketLibrary) (ws : Websocket) (e : Event) : Bool :=
  match ws.phase, e with
  | .posted .processReceiveBuffer, .posted => ws.closesOnBuffer lib
  | .sending .receive, .sent => (ws.clearPayload.clearFramesCache lib).closesOnBuffer lib
  | .application, .receive => (ws.clearFramesCache lib).closesOnBuffer lib
  | .receiving, .read data =>
    ws.receiveBufferOverflow data.length || (ws.addToReceiveBuffer data).closesOnBuffer lib
  | .receiving, .readError | .sending _, .sendError | .application, .close => true
  | _, _ => false

end Websocket

end Pion
