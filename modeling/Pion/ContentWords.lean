import Pion.HttpParser

/-!
# `consume_content` in machine words

The counters of the parser are of type `size_t`, here 64 bits wide. `HttpParser` has them as
natural numbers. This is `consume_content` on the words themselves, for a parser without a
payload handler: what becomes of the counters, and the `memcpy` that it issues.
-/

namespace Pion

/-- The counters that `consume_content` works with, and the limit. -/
structure ContentWords where
  bytesContentRemaining : UInt64
  bytesContentRead : UInt64
  bytesLastRead : UInt64
  bytesTotalRead : UInt64
  maxContentLength : UInt64
  deriving DecidableEq

/-- `memcpy(get_content() + offset, m_read_ptr, size)`. -/
structure ContentCopy where
  offset : UInt64
  size : UInt64
  deriving DecidableEq

/-- What `consume_content` does, without its effect on the message. -/
structure ContentRead where
  words : ContentWords
  copy : Option ContentCopy
  rc : Tribool

namespace ContentWords

/-- Which bytes go to the content buffer, of `contentBytesToRead` in the read buffer. -/
def copy (w : ContentWords) (contentBytesToRead : UInt64) : Option ContentCopy :=
  if w.bytesContentRead < w.maxContentLength then
    if w.bytesContentRead + contentBytesToRead > w.maxContentLength then
      some { offset := w.bytesContentRead, size := w.maxContentLength - w.bytesContentRead }
    else some { offset := w.bytesContentRead, size := contentBytesToRead }
  else none

/-- Past `contentBytesToRead` bytes of content. -/
def advance (w : ContentWords) (contentBytesToRead : UInt64) : ContentWords :=
  { w with
    bytesContentRemaining := w.bytesContentRemaining - contentBytesToRead
    bytesContentRead := w.bytesContentRead + contentBytesToRead
    bytesTotalRead := w.bytesTotalRead + contentBytesToRead
    bytesLastRead := contentBytesToRead }

/-- `consume_content`, with `contentBytesAvailable` bytes in the read buffer. -/
def consumeContent (w : ContentWords) (contentBytesAvailable : UInt64) : ContentRead :=
  if w.bytesContentRemaining = 0 then { words := w, copy := none, rc := .true }
  else if contentBytesAvailable ≥ w.bytesContentRemaining then
    { words := w.advance w.bytesContentRemaining, copy := w.copy w.bytesContentRemaining
      rc := .true }
  else
    { words := w.advance contentBytesAvailable, copy := w.copy contentBytesAvailable
      rc := .indeterminate }

end ContentWords

/-- The effect of the copy on the message, from the bytes at the read pointer. -/
def ContentCopy.run (c : ContentCopy) (m : HttpRequest) (unread : Bytes) : HttpRequest :=
  { m with toHttpMessage := m.copyToContent c.offset.toNat (unread.take c.size.toNat) }

/-- The words that a parser has its counters in. -/
def HttpParser.contentWords (p : HttpParser) : ContentWords where
  bytesContentRemaining := UInt64.ofNat p.bytesContentRemaining
  bytesContentRead := UInt64.ofNat p.bytesContentRead
  bytesLastRead := UInt64.ofNat p.bytesLastRead
  bytesTotalRead := UInt64.ofNat p.bytesTotalRead
  maxContentLength := UInt64.ofNat p.maxContentLength

end Pion
