import Pion.Algorithm

/-!
# URIs

`http_parser::parse_uri`. Its results are five variables of the caller: what they hold
before the call is an argument, since not every way through the function writes all of them.
-/

namespace Pion

/-- The variables that `parse_uri` is given by reference. -/
structure UriParts where
  proto : Bytes
  host : Bytes
  port : UInt16
  path : Bytes
  query : Bytes
  deriving DecidableEq

/-- `std::string::find` of a substring, from a position on. -/
def findFrom (needle s : Bytes) (pos : Nat) : Option Nat :=
  (findSub needle (s.drop pos)).map (pos + ·)

/-- `std::string::substr`. -/
def substr (s : Bytes) (pos len : Nat) : Bytes := (s.drop pos).take len

/-- The port that belongs to a protocol. -/
def defaultPort (proto : Bytes) : UInt16 :=
  if proto = str "http" ∨ proto = str "HTTP" then 80
  else if proto = str "https" ∨ proto = str "HTTPS" then 443
  else 0

/-- `parse_uri`, with `sl::utils::parse_uint16` as an argument: `none` when it throws. -/
def parseUri (parseUint16 : Bytes → Option UInt16) (uri : Bytes) (out : UriParts) :
    UriParts × Bool :=
  let protoEnd := findSub (str "://") uri
  let protoLen := protoEnd.elim 0 (· + 3)
  let out := { out with proto := protoEnd.elim [] (substr uri 0) }
  let firstSlash := findFrom [slash] uri protoLen
  let serverPortEnd := firstSlash.getD uri.length
  -- "no path -> use just /"
  let out := { out with path := if firstSlash = none then [slash] else out.path }
  let t := substr uri protoLen (serverPortEnd - protoLen)
  let portPos := findFrom [colon] t 0
  let out := { out with host := substr t 0 (portPos.getD t.length) }
  if out.host = [] then (out, false)
  else
    match portPos.elim (some (defaultPort out.proto)) fun i => parseUint16 (t.drop (i + 1)) with
    | none => (out, false)
    | some port =>
      let out := { out with port := port }
      if serverPortEnd < uri.length then
        let path := uri.drop serverPortEnd
        let queryPos := findFrom [question] path 0
        ({ out with
            query := queryPos.elim [] fun i => path.drop (i + 1)
            path := substr path 0 (queryPos.getD path.length) }, true)
      else (out, true)

end Pion
