import Pion.Proof.Chunked

/-!
# Chunk sizes

The size of a chunk is a number of any length, and `strtol` turns it into a `long`: a number
that does not fit becomes the largest one that does, and nobody asks `errno`. The length of a
body with a `Content-Length` is checked, that of a chunk is not.
-/

namespace Pion.Proof

open Pion Lib

/-- A chunk size line as the loop accepts it, with white space in front of the digits. -/
structure SizeLine extends ChunkLine where
  blanks : Bytes := []

namespace SizeLine

def text (l : SizeLine) : Bytes := l.blanks ++ l.toChunkLine.text

structure Written (l : SizeLine) : Prop where
  line : l.toChunkLine.Written
  blank : ∀ c ∈ l.blanks, c = sp ∨ c = tab ∨ c = cr ∨ c = lf

end SizeLine

/-- White space in front of the size. -/
theorem readBlanks (p : ChunkFields) (cache : Bytes) {w : Bytes}
    (hw : ∀ c ∈ w, c = sp ∨ c = tab ∨ c = cr ∨ c = lf) (rest : Bytes) :
    chunkScanner.run ({ p with chunkedContentParseState := .chunkSizeStart }, cache) (w ++ rest) =
      chunkScanner.run ({ p with chunkedContentParseState := .chunkSizeStart }, cache) rest := by
  refine chunkScanner_word (fun _ =>
    ({ p with chunkedContentParseState := .chunkSizeStart }, cache)) rest (fun u h => by cases h) ?_
  intro u c v hu
  have hc := hw c (by rw [hu]; simp)
  have hhex : isHexDigit c = false := by
    rcases hc with rfl | rfl | rfl | rfl <;> rfl
  unfold chunkSwitch
  dsimp only
  rw [if_neg (by rw [hhex]; exact Bool.false_ne_true), if_pos hc]

/-- The chunk loop rejects what it was given. -/
def RejectsSize (g : Progress) : Prop :=
  (parseChunks g).2 = some .false ∧ (parseChunks g).1.ec = some .chunkChar

/-- The chunk loop waits for as many bytes of data as the line says. -/
def TakesSize (g : Progress) (n : Nat) : Prop :=
  (parseChunks g).2 = some .indeterminate ∧ (parseChunks g).1.parser.sizeOfCurrentChunk = n

/-- A size is read exactly or not at all, and one beyond `size_t` is not read. -/
def ReadsExactSize (g : Progress) (n : Nat) : Prop :=
  (RejectsSize g ∨ TakesSize g n) ∧ (2 ^ 64 ≤ n → RejectsSize g)

/-- Every size line is accepted, and what is taken is what `strtol` makes of it. -/
theorem takesSize {g : Progress} (hstate : g.parser.chunkedContentParseState = .chunkSizeStart)
    {l : SizeLine} (hl : l.Written) (hunread : g.unread = l.text) : TakesSize g (strtol l.digits) := by
  have hstart : (g.parser.toChunkFields, g.msg.chunkCache) =
      ({ g.parser.toChunkFields with chunkedContentParseState := .chunkSizeStart }, g.msg.chunkCache) := by
    rw [← hstate]
  have hrun := (readBlanks g.parser.toChunkFields g.msg.chunkCache hl.blank (l.toChunkLine.text ++ [])).trans
    (readSizeLine g.parser.toChunkFields g.msg.chunkCache hl.line [])
  rw [← hstart, List.append_nil, Scanner.run_nil] at hrun
  unfold TakesSize parseChunks
  rw [hunread]
  dsimp only
  unfold SizeLine.text
  rw [hrun]
  exact ⟨rfl, rfl⟩

/--
**Which chunk sizes are read exactly**: those below `2 ^ 63`. Every other size is replaced by
`2 ^ 63 - 1`, and the parser waits for that many bytes.
-/
theorem readsExactSize_iff (g : Progress) (hstate : g.parser.chunkedContentParseState = .chunkSizeStart)
    (l : SizeLine) (hl : l.Written) (hunread : g.unread = l.text) :
    ReadsExactSize g (hexNumber l.digits) ↔ hexNumber l.digits < 2 ^ 63 := by
  obtain ⟨hrc, hsize⟩ := takesSize hstate hl hunread
  have hno : ¬ RejectsSize g := by
    rintro ⟨hfalse, _⟩
    rw [hrc] at hfalse
    cases hfalse
  constructor
  · rintro ⟨hexact, _⟩
    have htaken := (hexact.resolve_left hno).2
    rw [hsize] at htaken
    unfold strtol at htaken
    omega
  · intro hlt
    have hstrtol : strtol l.digits = hexNumber l.digits := by
      unfold strtol
      omega
    exact ⟨.inr ⟨hrc, hsize.trans hstrtol⟩, fun hge => by omega⟩

/-- A parser in front of a chunk size. -/
def sizeProgress (line : Bytes) : Progress where
  parser := HttpParser.fresh 1024 0 0
  msg := HttpRequest.fresh
  ec := none
  unread := line

theorem readsExactSize_small : ReadsExactSize (sizeProgress (str " 1A;name=value\r\n")) (hexNumber (str "1A")) :=
  (readsExactSize_iff _ rfl ⟨⟨str "1A", str ";name=value"⟩, str " "⟩
    ⟨⟨by decide, by decide, by decide⟩, by decide⟩ rfl).mpr (by decide)

theorem readsExactSize_saturated :
    ¬ ReadsExactSize (sizeProgress (str "8000000000000000\r\n")) (hexNumber (str "8000000000000000")) := by
  rw [readsExactSize_iff _ rfl ⟨⟨str "8000000000000000", []⟩, []⟩
    ⟨⟨by decide, by decide, by decide⟩, by decide⟩ rfl]
  decide

end Pion.Proof
