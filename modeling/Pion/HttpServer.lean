import Pion.HttpParser
import Pion.TcpConnection

/-!
# The server

`http_server`: which handler a request goes to, before its body is read and after.

A handler is user code. All that is kept of a request or WebSocket handler is which
one it is; a payload handler creator is a function of the request it is called with.
The interim response to `Expect: 100-continue` is written to the connection without
any effect on the parser; it is among the writes of an `Exchange`.
-/

namespace Pion

/-- A registered request or WebSocket handler. -/
structure Handler where
  id : Nat
  deriving DecidableEq

abbrev PayloadHandlerCreator := HttpRequest → PayloadHandler

/-- The five maps that `choose_map_by_method` chooses from. -/
structure MethodMaps (α : Type) where
  get : List (Bytes × α) := []
  post : List (Bytes × α) := []
  put : List (Bytes × α) := []
  delete : List (Bytes × α) := []
  options : List (Bytes × α) := []

structure HttpServer where
  listening : Bool := true
  handlers : MethodMaps Handler := {}
  payloads : MethodMaps PayloadHandlerCreator := {}
  wsopenHandlers : List (Bytes × Handler) := []
  wsmessageHandlers : List (Bytes × Handler) := []
  wscloseHandlers : List (Bytes × Handler) := []

def stripTrailingSlash (s : Bytes) : Bytes := if s.getLast? = some slash then s.dropLast else s

def chooseMapByMethod {α : Type} (method : Bytes) (maps : MethodMaps α) :
    Except Exn (List (Bytes × α)) :=
  if requestMethodGet = method ∨ requestMethodHead = method then .ok maps.get
  else if requestMethodPost = method then .ok maps.post
  else if requestMethodPut = method then .ok maps.put
  else if requestMethodDelete = method then .ok maps.delete
  else if requestMethodOptions = method then .ok maps.options
  else .error (.invalidHttpMethod method)

/-- Write the map that `choose_map_by_method` chose. -/
def MethodMaps.update {α : Type} (maps : MethodMaps α) (method : Bytes) (map : List (Bytes × α)) :
    MethodMaps α :=
  if requestMethodGet = method ∨ requestMethodHead = method then { maps with get := map }
  else if requestMethodPost = method then { maps with post := map }
  else if requestMethodPut = method then { maps with put := map }
  else if requestMethodDelete = method then { maps with delete := map }
  else if requestMethodOptions = method then { maps with options := map }
  else maps

/-- `emplace`, unless the key is there already. -/
def emplace {α : Type} (map : List (Bytes × α)) (key : Bytes) (value : α) :
    Option (List (Bytes × α)) :=
  if (map.lookup key).isSome then none else some ((key, value) :: map)

/-- The `pion_exception` that leaves a registration. -/
inductive RegistrationError where
  | choose (e : Exn)
  | duplicateHandlerPath (path method : Bytes)
  | duplicatePayloadPath (path method : Bytes)
  | invalidWebsocketEvent (event : Bytes)
  /-- The path in this message has been moved from. -/
  | duplicateWebsocketPath (event : Bytes)
  deriving DecidableEq

/-- `st.substr(0, st.find_last_of("/"))`, unless there is no slash. -/
def beforeLastSlash (st : Bytes) : Option Bytes :=
  match st.reverse.dropWhile (· ≠ slash) with
  | [] => none
  | _ :: front => some front.reverse

/-- The loop of `find_submatch`, with a bound on the number of passes. -/
def findSubmatchLoop {α : Type} (map : List (Bytes × α)) : Nat → Bytes → Option α
  | 0, _ => none
  | n + 1, st =>
    match map.lookup st with
    | some v => some v
    | none =>
      match beforeLastSlash st with
      | some st => findSubmatchLoop map n st
      | none => none

/-- `find_submatch`. Every pass makes the string shorter. -/
def findSubmatch {α : Type} (map : List (Bytes × α)) (path : Bytes) : Option α :=
  findSubmatchLoop map (path.length + 1) path

namespace HttpServer

/-- `add_handler`. -/
def addHandler (server : HttpServer) (method resource : Bytes) (h : Handler) :
    Except RegistrationError HttpServer :=
  match chooseMapByMethod method server.handlers with
  | .error e => .error (.choose e)
  | .ok map =>
    let cleanResource := stripTrailingSlash resource
    match emplace map cleanResource h with
    | none => .error (.duplicateHandlerPath cleanResource method)
    | some map => .ok { server with handlers := server.handlers.update method map }

/-- `add_payload_handler`. -/
def addPayloadHandler (server : HttpServer) (method resource : Bytes)
    (creator : PayloadHandlerCreator) : Except RegistrationError HttpServer :=
  match chooseMapByMethod method server.payloads with
  | .error e => .error (.choose e)
  | .ok map =>
    let cleanResource := stripTrailingSlash resource
    match emplace map cleanResource creator with
    | none => .error (.duplicatePayloadPath cleanResource method)
    | some map => .ok { server with payloads := server.payloads.update method map }

/-- `choose_ws_map`. -/
def chooseWsMap (server : HttpServer) (event : Bytes) :
    Except RegistrationError (List (Bytes × Handler)) :=
  if str "WSOPEN" = event then .ok server.wsopenHandlers
  else if str "WSMESSAGE" = event then .ok server.wsmessageHandlers
  else if str "WSCLOSE" = event then .ok server.wscloseHandlers
  else .error (.invalidWebsocketEvent event)

/-- Write the map that `choose_ws_map` chose. -/
def updateWsMap (server : HttpServer) (event : Bytes) (map : List (Bytes × Handler)) : HttpServer :=
  if str "WSOPEN" = event then { server with wsopenHandlers := map }
  else if str "WSMESSAGE" = event then { server with wsmessageHandlers := map }
  else if str "WSCLOSE" = event then { server with wscloseHandlers := map }
  else server

/-- `add_websocket_handler`. -/
def addWebsocketHandler (server : HttpServer) (event resource : Bytes) (h : Handler) :
    Except RegistrationError HttpServer :=
  match server.chooseWsMap event with
  | .error e => .error e
  | .ok map =>
    match emplace map (stripTrailingSlash resource) h with
    | none => .error (.duplicateWebsocketPath event)
    | some map => .ok (server.updateWsMap event map)

/-- The payload handler creator for a request, if its method is known. -/
def findPayload (server : HttpServer) (m : HttpRequest) : Except Exn (Option PayloadHandlerCreator) :=
  match chooseMapByMethod m.method server.payloads with
  | .error e => .error e
  | .ok map => .ok (findSubmatch map (stripTrailingSlash m.resource))

def handleRequestAfterHeadersParsed (server : HttpServer) : Hook := fun m ec rc =>
  -- `!rc` is not true of an indeterminate result code
  if ec.isSome ∨ rc = .false then .ok { rc := rc }
  else
    match server.findPayload m with
    | .error e => .error e
    | .ok (some creator) => .ok { rc := rc, payloadHandler := some (creator m) }
    -- "ignore request body as no payload_handler found"
    | .ok none => .ok { rc := .true }

end HttpServer

/-- `websocket::is_websocket_upgrade`. -/
def isWebsocketUpgrade (m : HttpRequest) : Bool :=
  m.hasHeaderValue (str "Upgrade") (str "websocket") &&
    m.hasHeaderValue (str "Sec-WebSocket-Version") (str "13") &&
    m.hasHeaderValue headerConnection (str "Upgrade") &&
    m.getHeader (str "Host") ≠ [] && (m.getHeader (str "Sec-WebSocket-Key")).length = 24

/-- What `handle_request` does with a request. -/
inductive Dispatch where
  /-- The bad request handler answers. -/
  | badRequest
  /-- `conn->finish()` at once. -/
  | finish
  /-- A WebSocket takes over; a missing handler is replaced by a default one. -/
  | websocket (wsopen wsmessage wsclose : Option Handler)
  /-- The handler for missing resources answers. -/
  | notFound
  /-- `OPTIONS *` is answered. -/
  | rootOptions
  | handler (h : Handler)
  deriving DecidableEq

/-- The error code that comes with a request: none, one of the parser's, or one of the socket's. -/
inductive ReadError where
  | ok
  | parser (e : ErrorValue)
  | socket
  deriving DecidableEq

def ReadError.ofParser : Option ErrorValue → ReadError
  | none => .ok
  | some e => .parser e

namespace HttpServer

/-- `find_ws_handlers`, as the handlers found. -/
def findWsHandlers (server : HttpServer) (path : Bytes) :
    Bool × Option Handler × Option Handler × Option Handler :=
  let wsopen := server.wsopenHandlers.lookup path
  let wsmessage := server.wsmessageHandlers.lookup path
  let wsclose := server.wscloseHandlers.lookup path
  (wsopen.isSome || wsmessage.isSome || wsclose.isSome, wsopen, wsmessage, wsclose)

/-- `handle_request`, up to the call of the handler. -/
def handleRequest (server : HttpServer) (conn : TcpConnection) (ec : ReadError) (m : HttpRequest) :
    TcpConnection × Except Exn Dispatch :=
  if ec ≠ .ok ∨ !m.isValid then
    (conn.setLifecycle .close,
      match ec with
      | .parser _ => if conn.isOpen then .ok .badRequest else .ok .finish
      | .ok | .socket => .ok .finish)
  else if isWebsocketUpgrade m then
    -- the resource as it was sent, with its slash
    let ws := server.findWsHandlers m.resource
    -- the constructor of `websocket` has the connection closed behind it
    if ws.1 then (conn.setLifecycle .close, .ok (.websocket ws.2.1 ws.2.2.1 ws.2.2.2))
    else (conn, .ok .notFound)
  else
    let path := stripTrailingSlash m.resource
    if requestMethodOptions = m.method ∧ (str "*" = path ∨ str "/*" = path) then
      (conn, .ok .rootOptions)
    else
      match chooseMapByMethod m.method server.handlers with
      | .error e => (conn, .error e)
      | .ok map =>
        match findSubmatch map path with
        | some h => (conn, .ok (.handler h))
        | none => (conn, .ok .notFound)

end HttpServer

end Pion
