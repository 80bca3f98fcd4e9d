import Pion.Algorithm
import Pion.Lib.Multimap

/-!
# The registry of websockets

`websocket_conn_registry` of `http_server`: which connections were upgraded on which path, for
broadcasts. A connection is named by a number. The registry keeps weak pointers only, so
`alive` says which of the connections still exist; `lock()` is null for the others.
-/

namespace Pion

open Lib

/-- A connection, and the id of its websocket. -/
structure WsConn where
  id : Bytes
  conn : Nat
  deriving DecidableEq

/-- `websocket_conn_registry_type`: from paths to connections. -/
abbrev WsRegistry := Multimap Bytes WsConn

/-- `register_ws_conn`: the closed connections are purged, on all paths. -/
def registerWsConn (registry : WsRegistry) (alive : Nat → Bool) (path id : Bytes) (conn : Nat) :
    WsRegistry :=
  (registry.filter fun e => alive e.2.conn).insert path { id := id, conn := conn }

/-- Where the loop of `find_ws_conns` is. -/
structure WsCursor where
  /-- The entries of the registry in front of the iterator. -/
  before : List (Bytes × WsConn)
  /-- The entries from the iterator to the end of the range. -/
  rest : List (Bytes × WsConn)
  /-- The connections found so far. -/
  vec : List Nat
  deriving DecidableEq

/-- `0 == dest_ids.size() || dest_ids.count(id) > 0`. -/
def destined (destIds : List Bytes) (id : Bytes) : Bool := destIds = [] || id ∈ destIds

/-- The body of the loop of `find_ws_conns`. -/
def findWsConnsPass (alive : Nat → Bool) (destIds : List Bytes) (c : WsCursor) : WsCursor :=
  match c.rest with
  | [] => c
  | it :: rest =>
    if destined destIds it.2.id then
      if alive it.2.conn then
        { before := c.before ++ [it], rest := rest, vec := c.vec ++ [it.2.conn] }
      -- the entry is erased
      else { c with rest := rest }
    -- the iterator stays where it is
    else c

/-- The loop of `find_ws_conns`, with a bound on the number of passes. -/
def findWsConnsLoop (alive : Nat → Bool) (destIds : List Bytes) : Nat → WsCursor → Option WsCursor
  | 0, c => if c.rest = [] then some c else none
  | n + 1, c =>
    if c.rest = [] then some c
    else findWsConnsLoop alive destIds n (findWsConnsPass alive destIds c)

/-- `find_ws_conns`, if it ends within `n` passes: the entries left in the registry, and the
connections found. -/
def findWsConns (registry : WsRegistry) (alive : Nat → Bool) (path : Bytes) (destIds : List Bytes)
    (n : Nat) :
    Option (List (Bytes × WsConn) × List Nat) :=
  (findWsConnsLoop alive destIds n
    { before := registry.lower path, rest := registry.range path, vec := [] }).map fun c =>
      (c.before ++ registry.upper path, c.vec)

end Pion
