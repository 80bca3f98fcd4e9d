import Pion.Algorithm

/-!
# Connections

`tcp_connection`, as far as the reader and the writer look at it: whether the
socket is open, what should become of it, the one array that every read goes to,
and the place in it that the last reader left for the next one.

Read pointers are indices into the array. This keeps what the pointers of the
source have: a bookmark stays where it is when a read puts other bytes there.
-/

namespace Pion

/-- `tcp_connection::lifecycle`. -/
inductive Lifecycle where
  | close | keepalive | pipelined
  deriving DecidableEq, Repr

/-- The size of `read_buffer_type`. -/
def readBufferSize : Nat := 8192

structure TcpConnection where
  isOpen : Bool := true
  currentLifecycle : Lifecycle := .close
  /-- The array, by the bytes that have ever been read into it. -/
  readBuffer : Bytes := []
  /-- The bookmark: the two pointers that `save_read_pos` was given. -/
  readPosition : Nat × Nat := (0, 0)

namespace TcpConnection

def setLifecycle (c : TcpConnection) (l : Lifecycle) : TcpConnection := { c with currentLifecycle := l }

def getKeepAlive (c : TcpConnection) : Bool := c.currentLifecycle ≠ .close

def isPipelined (c : TcpConnection) : Bool := c.currentLifecycle = .pipelined

def saveReadPos (c : TcpConnection) (readPtr readEndPtr : Nat) : TcpConnection :=
  { c with readPosition := (readPtr, readEndPtr) }

def loadReadPos (c : TcpConnection) : Nat × Nat := c.readPosition

/-- `async_read_some` completes: the bytes go to the front of the array. -/
def readSome (c : TcpConnection) (data : Bytes) : TcpConnection :=
  { c with readBuffer := data ++ c.readBuffer.drop data.length }

/-- The bytes between two read pointers. -/
def span (c : TcpConnection) (readPtr readEndPtr : Nat) : Bytes :=
  (c.readBuffer.take readEndPtr).drop readPtr

end TcpConnection

end Pion
