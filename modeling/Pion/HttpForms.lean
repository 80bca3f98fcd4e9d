import Pion.HttpMessage

/-!
# Query strings, cookies and forms

The three static functions of `http_parser` that fill a dictionary. Each is the
loop of the source over the bytes of its argument, with the local variables of
the source as loop state. They return the dictionary as it stands when the
function returns, since entries inserted before a failure stay inserted.
-/

namespace Pion

/-- What can leave a modelled function as an exception. -/
inductive Exn where
  /-- `std::length_error` of `std::string::assign`. -/
  | lengthError
  /-- The `pion_exception` of `choose_map_by_method`. -/
  | invalidHttpMethod (method : Bytes)
  /-- `std::bad_alloc` of `new`. -/
  | badAlloc
  deriving DecidableEq

def queryNameMax : Nat := 1024
def queryValueMax : Nat := 1024 * 1024
def cookieNameMax : Nat := 1024
def cookieValueMax : Nat := 1024 * 1024

/-! ## `parse_url_encoded` -/

inductive QueryParseState where
  | parseName | parseValue
  deriving DecidableEq

/-- Insert a decoded pair, unless its name is empty. -/
def insertQuery (x : Externals) (dict : Dict) (name value : Bytes) : Dict :=
  if name = [] then dict else x.insert dict (x.urlDecode name, x.urlDecode value)

def parseUrlEncodedLoop (x : Externals) : QueryParseState → Bytes → Bytes → Dict → Bytes →
    Dict × Bool
  | _, name, value, dict, [] => (insertQuery x dict name value, true)
  | .parseName, name, value, dict, c :: cs =>
    if c = equals then parseUrlEncodedLoop x .parseValue name value dict cs
    else if c = ampersand then
      -- a name without a value; the value is not cleared here
      parseUrlEncodedLoop x .parseName [] value (insertQuery x dict name value) cs
    else if c = cr ∨ c = lf ∨ c = tab then parseUrlEncodedLoop x .parseName name value dict cs
    else if isControl c ∨ name.length ≥ queryNameMax then (dict, false)
    else parseUrlEncodedLoop x .parseName (name ++ [c]) value dict cs
  | .parseValue, name, value, dict, c :: cs =>
    if c = ampersand then
      parseUrlEncodedLoop x .parseName [] [] (insertQuery x dict name value) cs
    else if c = comma then
      -- one more value for the same name
      parseUrlEncodedLoop x .parseValue name [] (insertQuery x dict name value) cs
    else if c = cr ∨ c = lf ∨ c = tab then parseUrlEncodedLoop x .parseValue name value dict cs
    else if isControl c ∨ value.length ≥ queryValueMax then (dict, false)
    else parseUrlEncodedLoop x .parseValue name (value ++ [c]) dict cs

def parseUrlEncoded (x : Externals) (dict : Dict) (data : Bytes) : Dict × Bool :=
  if data = [] then (dict, true) else parseUrlEncodedLoop x .parseName [] [] dict data

/-! ## `parse_cookie_header` -/

inductive CookieParseState where
  | parseName | parseValue | parseIgnore
  deriving DecidableEq

def isCookieAttribute (name : Bytes) (setCookieHeader : Bool) : Bool :=
  name = [] || name.head? = some dollar || (setCookieHeader &&
    ([str "Comment", str "Domain", str "Max-Age", str "Path", str "Secure", str "Version",
      str "Expires", str "HttpOnly"].any fun a => iequals name a))

/-- Insert a cookie, unless its name is that of an attribute. -/
def insertCookie (x : Externals) (setCookieHeader : Bool) (dict : Dict) (name value : Bytes) :
    Dict :=
  if isCookieAttribute name setCookieHeader then dict else x.insert dict (name, value)

/-- The loop; `q` is `value_quote_character`, zero outside quotes. -/
def parseCookieHeaderLoop (x : Externals) (set : Bool) : CookieParseState → UInt8 → Bytes →
    Bytes → Dict → Bytes → Dict × Bool
  | _, _, name, value, dict, [] => (insertCookie x set dict name value, true)
  | .parseName, q, name, value, dict, c :: cs =>
    if c = equals then parseCookieHeaderLoop x set .parseValue 0 name value dict cs
    else if c = semicolon ∨ c = comma then
      if name = [] then parseCookieHeaderLoop x set .parseName q name value dict cs
      else parseCookieHeaderLoop x set .parseName q [] value (insertCookie x set dict name value) cs
    else if c = sp then parseCookieHeaderLoop x set .parseName q name value dict cs
    else if isControl c ∨ name.length ≥ cookieNameMax then (dict, false)
    else parseCookieHeaderLoop x set .parseName q (name ++ [c]) value dict cs
  | .parseValue, q, name, value, dict, c :: cs =>
    if q = 0 then
      if c = semicolon ∨ c = comma then
        parseCookieHeaderLoop x set .parseName q [] [] (insertCookie x set dict name value) cs
      else if c = apostrophe ∨ c = quote then
        -- only in front of the value does a quote begin quoted text
        if value = [] then parseCookieHeaderLoop x set .parseValue c name value dict cs
        else if value.length ≥ cookieValueMax then (dict, false)
        else parseCookieHeaderLoop x set .parseValue q name (value ++ [c]) dict cs
      else if c = sp ∧ value = [] then parseCookieHeaderLoop x set .parseValue q name value dict cs
      else if isControl c ∨ value.length ≥ cookieValueMax then (dict, false)
      else parseCookieHeaderLoop x set .parseValue q name (value ++ [c]) dict cs
    else if c = q then
      parseCookieHeaderLoop x set .parseIgnore q [] [] (insertCookie x set dict name value) cs
    else if value.length ≥ cookieValueMax then (dict, false)
    else parseCookieHeaderLoop x set .parseValue q name (value ++ [c]) dict cs
  | .parseIgnore, q, name, value, dict, c :: cs =>
    if c = semicolon ∨ c = comma then parseCookieHeaderLoop x set .parseName q name value dict cs
    else parseCookieHeaderLoop x set .parseIgnore q name value dict cs

def parseCookieHeader (x : Externals) (dict : Dict) (header : Bytes) (setCookieHeader : Bool) :
    Dict × Bool :=
  parseCookieHeaderLoop x setCookieHeader .parseName 0 [] [] dict header

/-! ## `parse_multipart_form_data` -/

inductive MultiPartParseState where
  | start | headerCr | headerLf | headerName | headerSpace | headerValue | headerLastLf | fieldData
  deriving DecidableEq

/-- The local variables of the loop; `ptr` is an index into the form data. -/
structure MultiPart where
  parseState : MultiPartParseState := .start
  headerName : Bytes := []
  headerValue : Bytes := []
  fieldName : Bytes := []
  foundParameter : Bool := false
  saveCurrentField : Bool := true
  dict : Dict
  ptr : Nat

/-- `std::search` for the boundary from `ptr` on; the end of the data when it is not there. -/
def searchFrom (data boundary : Bytes) (ptr : Nat) : Nat :=
  match findSub boundary (data.drop ptr) with
  | some i => ptr + i
  | none => data.length

/-- The end of a header value: pick up the content type or the field name. -/
def MultiPart.endOfValue (s : MultiPart) : MultiPart :=
  let s :=
    if iequals s.headerName headerContentType then
      { s with saveCurrentField := iequals (s.headerValue.take 5) (str "text/") }
    else if iequals s.headerName headerContentDisposition then
      match findSub (str "name=\"") s.headerValue with
      | some i => { s with fieldName :=
          s.fieldName ++ (s.headerValue.drop (i + 6)).takeWhile (· ≠ quote) }
      | none => s
    else s
  { s with headerName := [], headerValue := [] }

/-- Move on to the next byte in a new state. -/
def MultiPart.goto (s : MultiPart) (st : MultiPartParseState) : MultiPart :=
  { s with parseState := st, ptr := s.ptr + 1 }

/-- Where field data that starts at `ptr` ends, given the next boundary: the CRLF
in front of the boundary does not belong to it. -/
def fieldEnd (data : Bytes) (next : Nat) : Nat :=
  if 2 ≤ next ∧ data[next - 2]? = some cr ∧ data[next - 1]? = some lf then next - 2 else next

/-- One pass of the loop over the byte `c` at `s.ptr`; `Sum.inr` leaves the function. -/
def multiPartStep (x : Externals) (data boundary : Bytes) (s : MultiPart) (c : UInt8) :
    MultiPart ⊕ (Dict × Except Exn Bool) :=
  match s.parseState with
  | .start =>
    -- jump over the boundary
    .inl { s with headerName := [], headerValue := [], fieldName := [], saveCurrentField := true,
                  parseState := .headerCr, ptr := s.ptr + (boundary.length - 1) + 1 }
  | .headerCr =>
    if c = cr then .inl (s.goto .headerLf)
    else if c = lf then .inl (s.goto .headerName)
    else if c = dash ∧ data[s.ptr + 1]? = some dash then .inr (s.dict, .ok true)
    else .inr (s.dict, .ok false)
  | .headerLf => if c = lf then .inl (s.goto .headerName) else .inr (s.dict, .ok false)
  | .headerName =>
    if c = cr ∨ c = lf then
      if s.headerName = [] then .inl (s.goto (if c = cr then .headerLastLf else .fieldData))
      else .inl (s.goto (if c = cr then .headerLf else .headerName))
    else if c = colon then .inl (s.goto .headerSpace)
    else .inl ({ s with headerName := s.headerName ++ [c] }.goto .headerName)
  | .headerSpace =>
    if c = cr then .inl (s.goto .headerLf)
    else if c = lf then .inl (s.goto .headerName)
    else if c ≠ sp then .inl ({ s with headerValue := s.headerValue ++ [c] }.goto .headerValue)
    else .inl (s.goto .headerSpace)
  | .headerValue =>
    if c = cr ∨ c = lf then .inl (s.endOfValue.goto (if c = cr then .headerLf else .headerName))
    else .inl ({ s with headerValue := s.headerValue ++ [c] }.goto .headerValue)
  | .headerLastLf =>
    if c = lf then
      if s.saveCurrentField ∧ s.fieldName ≠ [] then .inl (s.goto .fieldData)
      -- a field without a name, or one that is not text, is skipped
      else .inl { s with parseState := .start, ptr := searchFrom data boundary s.ptr }
    else .inr (s.dict, .ok false)
  | .fieldData =>
    let next := searchFrom data boundary s.ptr
    -- the length given to `assign` is negative when the boundary follows the headers at once
    if fieldEnd data next < s.ptr then .inr (s.dict, .error .lengthError)
    else
      let value := (data.take (fieldEnd data next)).drop s.ptr
      .inl { s with dict := x.insert s.dict (s.fieldName, value), foundParameter := true,
                    parseState := .start, ptr := next }

def multiPartLoop (x : Externals) (data boundary : Bytes) : Nat → MultiPart →
    Dict × Except Exn Bool
  | 0, s => (s.dict, .ok s.foundParameter)
  | n + 1, s =>
    match data[s.ptr]? with
    | none => (s.dict, .ok s.foundParameter)
    | some c =>
      match multiPartStep x data boundary s c with
      | .inl s' => multiPartLoop x data boundary n s'
      | .inr r => r

/-- A pass that does not move `ptr` is followed by one that moves it past the
boundary, so twice the length of the data is enough fuel. -/
def parseMultipartFormData (x : Externals) (dict : Dict) (contentType data : Bytes) :
    Dict × Except Exn Bool :=
  if data = [] then (dict, .ok true)
  else
    match findSub (str "boundary=") contentType with
    | none => (dict, .ok false)
    | some pos =>
      let boundary := str "--" ++ contentType.drop (pos + 9)
      multiPartLoop x data boundary (2 * data.length + 2)
        { dict := dict, ptr := searchFrom data boundary 0 }

end Pion
