import Pion.HttpResponseWriter

/-!
# The default handlers

What a server answers on its own: to a request that could not be parsed, to one that there is no
handler for, and to `OPTIONS *`. Each is given a new writer for the request.
-/

namespace Pion

/-! ## Texts -/

def badRequestMsg : Bytes :=
  str "\x7b\n    \"code\": 400,\n    \"message\": \"Bad Request\",\n    \"description\": \"Your browser sent a request that this server could not understand.\"\n\x7d"

def notFoundMsgStart : Bytes :=
  str "\x7b\n    \"code\": 404,\n    \"message\": \"Not Found\",\n    \"description\": \"The requested URL: ["

def notFoundMsgFinish : Bytes := str "] was not found on this server.\"\n\x7d"

def headerAllow : Bytes := str "Allow"

def rootMethods : Bytes := str "HEAD, GET, POST, PUT, DELETE, OPTIONS"

/-! ## Handlers -/

/-- `handle_bad_request`. -/
def handleBadRequest (x : Externals) (w : HttpResponseWriter) : HttpResponseWriter × Send :=
  let w := { w with response := (w.response.setStatusCode 400).setStatusMessage (str "Bad Request") }
  (w.writeNocopy badRequestMsg).send x

/-- The resource, with single quotes for double ones. -/
def quotedResource (m : HttpRequest) : Bytes := m.resource.map fun c => if c = quote then apostrophe else c

/-- `handle_not_found_request`. -/
def handleNotFoundRequest (x : Externals) (m : HttpRequest) (w : HttpResponseWriter) :
    HttpResponseWriter × Send :=
  let w := { w with response := (w.response.setStatusCode 404).setStatusMessage (str "Not Found") }
  (((w.writeNocopy notFoundMsgStart).write (quotedResource m)).writeNocopy notFoundMsgFinish).send x

/-- `handle_root_options`. -/
def handleRootOptions (x : Externals) (w : HttpResponseWriter) : HttpResponseWriter × Send :=
  let w := { w with response := { w.response with
    toHttpMessage := w.response.changeHeader x headerAllow rootMethods } }
  w.send x

end Pion
