import Pion.Proof.HeaderRun
import Pion.Proof.Segmentation

/-!
# Reading a chunked body

The chunk loop, run forwards over a well-formed chunked body. A chunk is its size
in hex digits, whatever may follow on the same line, and its data, which may be any
bytes at all: while the loop is inside a chunk it looks at nothing but its counters.

The data goes to the payload handler or to the chunk cache. `absorb` is either, so
that everything but the data itself is read once for both.
-/

namespace Pion.Proof

open Pion Lib

/-! ## The grammar of a chunked body -/

/-- What may follow the size of a chunk on its line: blanks, or a semicolon and any text
without a CR. -/
def ExtensionOk (ext : Bytes) : Prop :=
  (∀ c ∈ ext, c = sp ∨ c = tab) ∨ ∃ text, ext = semicolon :: text ∧ ∀ c ∈ text, c ≠ cr

theorem extensionOk_iff (ext : Bytes) :
    ExtensionOk ext ↔ (∀ c ∈ ext, c = sp ∨ c = tab) ∨
      ext.head? = some semicolon ∧ ∀ c ∈ ext.tail, c ≠ cr := by
  refine or_congr Iff.rfl ?_
  constructor
  · rintro ⟨text, rfl, htext⟩
    exact ⟨rfl, htext⟩
  · rintro ⟨hhead, htail⟩
    obtain ⟨text, rfl⟩ := List.head?_eq_some_iff.mp hhead
    exact ⟨text, rfl, htail⟩

instance (ext : Bytes) : Decidable (ExtensionOk ext) := decidable_of_iff' _ (extensionOk_iff ext)

/-- The line in front of a chunk. -/
structure ChunkLine where
  digits : Bytes
  ext : Bytes := []

namespace ChunkLine

def text (l : ChunkLine) : Bytes := l.digits ++ (l.ext ++ stringCrlf)

/-- The line writes a number. -/
structure Written (l : ChunkLine) : Prop where
  digits_ne : l.digits ≠ []
  digits_hex : ∀ c ∈ l.digits, isHexDigit c = true
  ext_ok : ExtensionOk l.ext

/-- The line announces a chunk of `size` bytes. -/
@[mk_iff]
structure Ok (l : ChunkLine) (size : Nat) : Prop where
  digits_ne : l.digits ≠ []
  digits_hex : ∀ c ∈ l.digits, isHexDigit c = true
  size_eq : hexNumber l.digits = size
  size_lt : size < 2 ^ 63
  ext_ok : ExtensionOk l.ext

instance (l : ChunkLine) (size : Nat) : Decidable (l.Ok size) := decidable_of_iff' _ (ok_iff l size)

end ChunkLine

/-- A chunk with its line. -/
structure Chunk extends ChunkLine where
  data : Bytes

namespace Chunk

def text (c : Chunk) : Bytes := c.toChunkLine.text ++ (c.data ++ stringCrlf)

@[mk_iff]
structure Ok (c : Chunk) : Prop where
  line : c.toChunkLine.Ok c.data.length
  data_ne : c.data ≠ []

instance (c : Chunk) : Decidable c.Ok := decidable_of_iff' _ (ok_iff c)

end Chunk

/-- A chunked body: chunks, the line of the last chunk, and trailers. -/
structure ChunkedBody where
  chunks : List Chunk
  last : ChunkLine
  trailers : List HeaderLine := []

namespace ChunkedBody

/-- The chunks and the line of the last one. -/
def chunkText (b : ChunkedBody) : Bytes := (b.chunks.map Chunk.text).flatten ++ b.last.text

def text (b : ChunkedBody) : Bytes := b.chunkText ++ (headerText b.trailers ++ stringCrlf)

theorem text_ne_nil (b : ChunkedBody) : b.text ≠ [] := by
  unfold text stringCrlf
  simp

/-- The decoded body. -/
def data (b : ChunkedBody) : Bytes := (b.chunks.map Chunk.data).flatten

@[mk_iff]
structure Ok (b : ChunkedBody) : Prop where
  chunks : ∀ c ∈ b.chunks, c.Ok
  last : b.last.Ok 0
  trailers : ∀ l ∈ b.trailers, l.Ok

instance (b : ChunkedBody) : Decidable b.Ok := decidable_of_iff' _ (ok_iff b)

end ChunkedBody

/-! ## One byte -/

theorem chunkScanner_take {s s' : ChunkState} {c : UInt8} {rest : Bytes}
    (hst : s.1.chunkedContentParseState ≠ .chunk) (h : chunkSwitch s c = .take s') :
    chunkScanner.run s (c :: rest) = chunkScanner.run s' rest := by
  refine chunkScanner.run_cons_next ?_
  show chunkStep s c rest = _
  unfold chunkStep
  rw [if_neg hst, h]
  rfl

theorem chunkScanner_stop {s s' : ChunkState} {c : UInt8} {rest : Bytes} {r : Halt} {u : Bool}
    (hst : s.1.chunkedContentParseState ≠ .chunk) (h : chunkSwitch s c = .stop r s' u) :
    chunkScanner.run s (c :: rest) = .stop r s' (if u then rest else c :: rest) := by
  refine chunkScanner.run_cons_stop ?_
  show chunkStep s c rest = _
  unfold chunkStep
  rw [if_neg hst, h]
  rfl

theorem chunkScanner_word {w : Bytes} (after : Bytes → ChunkState) (rest : Bytes)
    (hst : ∀ u, (after u).1.chunkedContentParseState ≠ .chunk)
    (h : ∀ u c v, w = u ++ c :: v → chunkSwitch (after u) c = .take (after (u ++ [c]))) :
    chunkScanner.run (after []) (w ++ rest) = chunkScanner.run (after w) rest := by
  refine chunkScanner.run_word after rest ?_
  intro u c v hw cs
  show chunkStep (after u) c cs = _
  unfold chunkStep
  rw [if_neg (hst u), h u c v hw]
  rfl

/-! ## The line of a chunk -/

section line

variable (p : ChunkFields) (cache : Bytes)

theorem readChunkSize {w : Bytes} (hne : w ≠ []) (hhex : ∀ c ∈ w, isHexDigit c = true) (rest : Bytes) :
    chunkScanner.run ({ p with chunkedContentParseState := .chunkSizeStart }, cache) (w ++ rest) =
      chunkScanner.run
        ({ p with chunkSizeStr := w, chunkedContentParseState := .chunkSize }, cache) rest := by
  obtain ⟨c, cs, rfl⟩ := List.exists_cons_of_ne_nil hne
  have hfirst : chunkSwitch ({ p with chunkedContentParseState := .chunkSizeStart }, cache) c =
      .take ({ p with chunkSizeStr := [c], chunkedContentParseState := .chunkSize }, cache) := by
    unfold chunkSwitch
    dsimp only
    rw [if_pos (hhex c List.mem_cons_self)]
  rw [List.cons_append, chunkScanner_take (fun h => by cases h) hfirst]
  refine chunkScanner_word (fun u =>
    ({ p with chunkSizeStr := c :: u, chunkedContentParseState := .chunkSize }, cache)) rest
    (fun u h => by cases h) ?_
  intro u d v hw
  unfold chunkSwitch
  dsimp only
  rw [if_pos (hhex d (by rw [hw]; simp))]
  rfl

/-- Behind the size: whatever follows on the line, up to the CR. -/
theorem readExtension {ext : Bytes} (hext : ExtensionOk ext) (rest : Bytes) :
    chunkScanner.run ({ p with chunkedContentParseState := .chunkSize }, cache) (ext ++ cr :: rest) =
      chunkScanner.run ({ p with chunkedContentParseState := .expectingLfAfterChunkSize }, cache)
        rest := by
  -- all three states take the CR alike
  have hcr : ∀ st, st = .chunkSize ∨ st = .expectingCrAfterChunkSize ∨
      st = .expectingIgnoredTextAfterChunkSize →
      chunkScanner.run ({ p with chunkedContentParseState := st }, cache) (cr :: rest) =
        chunkScanner.run ({ p with chunkedContentParseState := .expectingLfAfterChunkSize }, cache)
          rest := by
    intro st hst
    rcases hst with rfl | rfl | rfl
    · exact chunkScanner_take (fun h => by cases h) rfl
    · exact chunkScanner_take (fun h => by cases h) rfl
    · exact chunkScanner_take (fun h => by cases h) rfl
  rcases hext with hblank | ⟨text, rfl, htext⟩
  · cases ext with
    | nil => exact hcr _ (Or.inl rfl)
    | cons c cs =>
      have hfirst : chunkSwitch ({ p with chunkedContentParseState := .chunkSize }, cache) c =
          .take ({ p with chunkedContentParseState := .expectingCrAfterChunkSize }, cache) := by
        rcases hblank c List.mem_cons_self with rfl | rfl
        · rfl
        · rfl
      rw [List.cons_append, chunkScanner_take (fun h => by cases h) hfirst]
      refine (chunkScanner_word (fun _ =>
        ({ p with chunkedContentParseState := .expectingCrAfterChunkSize }, cache)) (cr :: rest)
        (fun u h => by cases h) ?_).trans (hcr _ (Or.inr (Or.inl rfl)))
      intro u d v hw
      rcases hblank d (by rw [hw]; simp) with rfl | rfl
      · rfl
      · rfl
  · have hfirst : chunkSwitch ({ p with chunkedContentParseState := .chunkSize }, cache) semicolon =
        .take ({ p with chunkedContentParseState := .expectingIgnoredTextAfterChunkSize }, cache) := rfl
    rw [List.cons_append, chunkScanner_take (fun h => by cases h) hfirst]
    refine (chunkScanner_word (fun _ =>
      ({ p with chunkedContentParseState := .expectingIgnoredTextAfterChunkSize }, cache)) (cr :: rest)
      (fun u h => by cases h) ?_).trans (hcr _ (Or.inr (Or.inr rfl)))
    intro u d v hw
    unfold chunkSwitch
    dsimp only
    rw [if_neg (htext d (by rw [hw]; simp))]

/-- The line of a chunk, whatever number it writes: the size is what `strtol` makes of it. -/
theorem readSizeLine {l : ChunkLine} (hl : l.Written) (rest : Bytes) :
    chunkScanner.run ({ p with chunkedContentParseState := .chunkSizeStart }, cache) (l.text ++ rest) =
      chunkScanner.run ({ p with
        chunkSizeStr := l.digits
        bytesReadInCurrentChunk := 0
        sizeOfCurrentChunk := strtol l.digits
        chunkedContentParseState :=
          if strtol l.digits = 0 then .expectingFinalCrOrFootersAfterLastChunk else .chunk }, cache)
        rest := by
  have hlf : chunkSwitch ({ p with
      chunkSizeStr := l.digits, chunkedContentParseState := .expectingLfAfterChunkSize }, cache) lf =
      .take ({ p with
        chunkSizeStr := l.digits
        bytesReadInCurrentChunk := 0
        sizeOfCurrentChunk := strtol l.digits
        chunkedContentParseState :=
          if strtol l.digits = 0 then .expectingFinalCrOrFootersAfterLastChunk else .chunk }, cache) := by
    unfold chunkSwitch
    dsimp only
    rw [if_pos rfl]
  unfold ChunkLine.text
  rw [List.append_assoc, List.append_assoc, readChunkSize p cache hl.digits_ne hl.digits_hex]
  refine (readExtension { p with chunkSizeStr := l.digits } cache hl.ext_ok (lf :: rest)).trans ?_
  exact chunkScanner_take (fun h => by cases h) hlf

/-- **The line of a chunk sets the counters for its data.** -/
theorem readChunkLine {l : ChunkLine} {size : Nat} (hl : l.Ok size) (rest : Bytes) :
    chunkScanner.run ({ p with chunkedContentParseState := .chunkSizeStart }, cache) (l.text ++ rest) =
      chunkScanner.run ({ p with
        chunkSizeStr := l.digits
        bytesReadInCurrentChunk := 0
        sizeOfCurrentChunk := size
        chunkedContentParseState :=
          if size = 0 then .expectingFinalCrOrFootersAfterLastChunk else .chunk }, cache) rest := by
  -- the size is below `2 ^ 63`, so `strtol` does not saturate
  have hsize : strtol l.digits = size := by
    unfold strtol
    rw [hl.size_eq]
    have := hl.size_lt
    omega
  rw [readSizeLine p cache ⟨hl.digits_ne, hl.digits_hex, hl.ext_ok⟩, hsize]

end line

/-! ## The data of a chunk -/

/-- Chunk data goes to the payload handler, or else to the chunk cache. -/
def absorb (s : ChunkState) (data : Bytes) : ChunkState :=
  if s.1.payloadHandler.isSome then ({ s.1 with delivered := s.1.delivered ++ data }, s.2)
  else (s.1, s.2 ++ data)

/-- Without a payload handler, `n` more bytes fit into the chunk cache. -/
def Room (s : ChunkState) (n : Nat) : Prop :=
  s.1.payloadHandler = none → s.2.length + n ≤ s.1.maxContentLength

theorem absorb_handler {s : ChunkState} (h : s.1.payloadHandler.isSome = true) (data : Bytes) :
    absorb s data = ({ s.1 with delivered := s.1.delivered ++ data }, s.2) := if_pos h

theorem absorb_cache {s : ChunkState} (h : s.1.payloadHandler = none) (data : Bytes) :
    absorb s data = (s.1, s.2 ++ data) := by
  unfold absorb
  rw [h]
  rfl

theorem absorb_frame (s : ChunkState) (data : Bytes) : ChunkFrame s.1 (absorb s data).1 := by
  unfold absorb
  split
  · exact ⟨rfl, rfl⟩
  · exact ⟨rfl, rfl⟩

theorem absorb_nil (s : ChunkState) : absorb s [] = s := by
  unfold absorb
  split
  · rw [List.append_nil]
  · rw [List.append_nil]

theorem Room.absorb {s : ChunkState} {u v : Bytes} (h : Room s (u ++ v).length) :
    Room (absorb s u) v.length := by
  intro hk
  rw [(absorb_frame s u).1] at hk
  have hle := h hk
  rw [(absorb_frame s u).2, absorb_cache hk, List.length_append]
  rw [List.length_append] at hle
  omega

/-- The state of the chunk loop behind a line that announced `n` bytes. -/
def inChunk (s : ChunkState) (n : Nat) : ChunkState :=
  ({ s.1 with bytesReadInCurrentChunk := 0, sizeOfCurrentChunk := n,
              chunkedContentParseState := .chunk }, s.2)

/-- The state of the chunk loop behind `n` bytes of data. -/
def behindData (s : ChunkState) (n : Nat) : ChunkState :=
  ({ s.1 with bytesReadInCurrentChunk := n, sizeOfCurrentChunk := n,
              chunkedContentParseState := .expectingCrAfterChunk }, s.2)

theorem readData_handler {s : ChunkState} {k : PayloadHandler} (hk : s.1.payloadHandler = some k)
    (hcalm : NoThrow k) {data : Bytes} (hne : data ≠ []) (rest : Bytes) :
    chunkScanner.run (inChunk s data.length) (data ++ rest) =
      chunkScanner.run (behindData (absorb s data) data.length) rest := by
  obtain ⟨c, cs, rfl⟩ := List.exists_cons_of_ne_nil hne
  have hlt : (inChunk s (c :: cs).length).1.bytesReadInCurrentChunk <
      (inChunk s (c :: cs).length).1.sizeOfCurrentChunk := Nat.succ_pos _
  -- the whole chunk is one span
  have hspan := chunkData_handler (s := inChunk s (c :: cs).length) hk hcalm hlt c (cs ++ rest)
  rw [show (inChunk s (c :: cs).length).1.sizeOfCurrentChunk -
      (inChunk s (c :: cs).length).1.bytesReadInCurrentChunk = (c :: cs).length from rfl,
    ← List.cons_append, List.take_left, List.drop_left] at hspan
  have hstep : chunkScanner.step (inChunk s (c :: cs).length) c (cs ++ rest) =
      .next (afterSpan (inChunk s (c :: cs).length) (c :: cs)) rest :=
    (chunkStep_chunk rfl c (cs ++ rest)).trans hspan
  rw [List.cons_append, chunkScanner.run_cons_next hstep, absorb_handler (by rw [hk]; rfl)]
  unfold afterSpan endOfChunk inChunk behindData
  dsimp only
  rw [Nat.zero_add, if_pos rfl]

/-- The state of the chunk loop inside a chunk of `n` bytes, behind its first bytes `u`. -/
def partway (s : ChunkState) (n : Nat) (u : Bytes) : ChunkState :=
  ({ s.1 with bytesReadInCurrentChunk := u.length, sizeOfCurrentChunk := n,
              chunkedContentParseState := .chunk }, s.2 ++ u)

theorem partway_lt {s : ChunkState} {n : Nat} {u : Bytes} (h : u.length < n) :
    endOfChunk (partway s n u) = partway s n u := endOfChunk_read_lt h

/-- As far as they fit, the first bytes of a chunk go to the chunk cache. -/
theorem readSpan_cache {s : ChunkState} (hk : s.1.payloadHandler = none) {n : Nat} (hn : 0 < n)
    {data : Bytes} (hlen : data.length ≤ n) (hroom : s.2.length + data.length ≤ s.1.maxContentLength)
    (rest : Bytes) :
    chunkScanner.run (inChunk s n) (data ++ rest) =
      chunkScanner.run (endOfChunk (partway s n data)) rest := by
  have hword := chunkScanner.run_word (w := data) (fun u => endOfChunk (partway s n u)) rest (by
    intro u c v hw cs
    have hu : u.length < data.length := by
      rw [hw, List.length_append, List.length_cons]
      omega
    have hun : u.length < n := by omega
    have hcache : (s.2 ++ u).length < s.1.maxContentLength := by
      rw [List.length_append]
      omega
    show chunkStep (endOfChunk (partway s n u)) c cs = _
    rw [partway_lt hun, chunkStep_chunk rfl]
    unfold chunkData partway
    dsimp only
    rw [if_pos hun, hk]
    dsimp only
    rw [if_pos hcache, List.append_assoc, List.length_append]
    rfl)
  have hstart : endOfChunk (partway s n []) = inChunk s n := by
    rw [partway_lt hn]
    unfold partway inChunk
    rw [List.append_nil]
    rfl
  rw [← hstart]
  exact hword

theorem readData_cache {s : ChunkState} (hk : s.1.payloadHandler = none) {data : Bytes}
    (hne : data ≠ []) (hroom : s.2.length + data.length ≤ s.1.maxContentLength) (rest : Bytes) :
    chunkScanner.run (inChunk s data.length) (data ++ rest) =
      chunkScanner.run (behindData (absorb s data) data.length) rest := by
  -- the byte that completes the chunk also changes the state
  have hend : endOfChunk (partway s data.length data) = behindData (absorb s data) data.length := by
    rw [absorb_cache hk]
    exact if_pos rfl
  rw [← hend]
  exact readSpan_cache hk (List.length_pos_iff.mpr hne) (Nat.le_refl _) hroom rest

/-- **The data of a chunk is taken as it is**, whatever its bytes are. -/
theorem readData {s : ChunkState} (hcalm : Calm s.1) {data : Bytes} (hne : data ≠ [])
    (hroom : Room s data.length) (rest : Bytes) :
    chunkScanner.run (inChunk s data.length) (data ++ rest) =
      chunkScanner.run (behindData (absorb s data) data.length) rest := by
  cases hk : s.1.payloadHandler with
  | some k => exact readData_handler hk (hcalm k hk) hne rest
  | none => exact readData_cache hk hne (hroom hk) rest

/-! ## Chunks -/

/-- Behind a chunk: the data has been absorbed, and the next size is expected. -/
def behindChunk (s : ChunkState) (c : Chunk) : ChunkState :=
  ({ (absorb s c.data).1 with
    chunkSizeStr := c.digits
    bytesReadInCurrentChunk := c.data.length
    sizeOfCurrentChunk := c.data.length
    chunkedContentParseState := .chunkSizeStart }, (absorb s c.data).2)

/-- The chunk loop in front of a chunk. -/
def atChunk (s : ChunkState) : ChunkState :=
  ({ s.1 with chunkedContentParseState := .chunkSizeStart }, s.2)

theorem readChunk {s : ChunkState} (hcalm : Calm s.1) {c : Chunk} (hc : c.Ok)
    (hroom : Room s c.data.length) (rest : Bytes) :
    chunkScanner.run (atChunk s) (c.text ++ rest) = chunkScanner.run (behindChunk s c) rest := by
  let s₁ : ChunkState := ({ s.1 with chunkSizeStr := c.digits }, s.2)
  have hline := readChunkLine s.1 s.2 hc.line (c.data ++ (stringCrlf ++ rest))
  rw [if_neg (fun h => hc.data_ne (List.eq_nil_of_length_eq_zero h))] at hline
  have hdata : chunkScanner.run (inChunk s₁ c.data.length) (c.data ++ (stringCrlf ++ rest)) = _ :=
    readData (s := s₁) hcalm hc.data_ne hroom (stringCrlf ++ rest)
  have hcr : ∀ t : ChunkState, chunkScanner.run (behindData t c.data.length) (stringCrlf ++ rest) =
      chunkScanner.run ({ (behindData t c.data.length).1 with
        chunkedContentParseState := .chunkSizeStart }, t.2) rest := by
    intro t
    refine (chunkScanner_take (fun h => by cases h) rfl).trans ?_
    exact chunkScanner_take (fun h => by cases h) rfl
  unfold Chunk.text
  rw [List.append_assoc, List.append_assoc]
  refine hline.trans (hdata.trans ((hcr _).trans ?_))
  unfold behindChunk behindData absorb
  dsimp only [s₁]
  split <;> rfl

/-- From `s` to `t`, the chunk loop has absorbed `data`. -/
structure Absorbed (s : ChunkState) (data : Bytes) (t : ChunkState) : Prop where
  frame : ChunkFrame s.1 t.1
  delivered : t.1.delivered = (absorb s data).1.delivered
  cache : t.2 = (absorb s data).2

theorem Absorbed.trans {s t u : ChunkState} {d e : Bytes} (h : Absorbed s d t) (h' : Absorbed t e u) :
    Absorbed s (d ++ e) u := by
  have hframe : ChunkFrame s.1 u.1 :=
    ⟨h'.frame.1.trans h.frame.1, h'.frame.2.trans h.frame.2⟩
  cases hk : s.1.payloadHandler with
  | none =>
    have ht : t.1.payloadHandler = none := h.frame.1.trans hk
    have h1 := h.delivered; have h2 := h.cache; have h3 := h'.delivered; have h4 := h'.cache
    rw [absorb_cache hk] at h1 h2
    rw [absorb_cache ht] at h3 h4
    refine ⟨hframe, ?_, ?_⟩
    · rw [absorb_cache hk, h3, h1]
    · rw [absorb_cache hk, h4, h2, List.append_assoc]
  | some k =>
    have hs : s.1.payloadHandler.isSome = true := by rw [hk]; rfl
    have ht : t.1.payloadHandler.isSome = true := by rw [h.frame.1, hk]; rfl
    have h1 := h.delivered; have h2 := h.cache; have h3 := h'.delivered; have h4 := h'.cache
    rw [absorb_handler hs] at h1 h2
    rw [absorb_handler ht] at h3 h4
    refine ⟨hframe, ?_, ?_⟩
    · rw [absorb_handler hs, h3, h1, List.append_assoc]
    · rw [absorb_handler hs, h4, h2]

theorem absorbed_behindChunk (s : ChunkState) (c : Chunk) : Absorbed s c.data (behindChunk s c) :=
  ⟨absorb_frame s c.data, rfl, rfl⟩

theorem absorbed_of_fields {s t : ChunkState} (hframe : ChunkFrame s.1 t.1)
    (hd : t.1.delivered = s.1.delivered) (hc : t.2 = s.2) : Absorbed s [] t := by
  refine ⟨hframe, ?_, ?_⟩
  · rw [absorb_nil, hd]
  · rw [absorb_nil, hc]

theorem Absorbed.room {s t : ChunkState} {u v : Bytes} (h : Absorbed s u t)
    (hroom : Room s (u ++ v).length) : Room t v.length := by
  intro hk
  rw [h.frame.1] at hk
  have hle := hroom hk
  rw [h.frame.2, h.cache, absorb_cache hk, List.length_append]
  rw [List.length_append] at hle
  omega

/-- **All the data of the chunks is absorbed, in order.** -/
theorem readChunks : ∀ (cs : List Chunk) (s : ChunkState), (∀ c ∈ cs, c.Ok) → Calm s.1 →
    Room s (cs.map Chunk.data).flatten.length → ∀ rest : Bytes,
    ∃ t, Absorbed s (cs.map Chunk.data).flatten t ∧ chunkScanner.run (atChunk s)
      ((cs.map Chunk.text).flatten ++ rest) = chunkScanner.run (atChunk t) rest := by
  intro cs
  induction cs with
  | nil =>
    intro s _ _ _ rest
    exact ⟨s, absorbed_of_fields ⟨rfl, rfl⟩ rfl rfl, rfl⟩
  | cons c cs ih =>
    intro s hcs hcalm hroom rest
    rw [List.map_cons, List.flatten_cons] at hroom ⊢
    have hc := hcs c List.mem_cons_self
    have hroom₁ : Room s c.data.length := by
      intro hk
      have hle := hroom hk
      rw [List.length_append] at hle
      omega
    have habs := absorbed_behindChunk s c
    -- the first chunk leaves less room in the cache, but enough for the others
    obtain ⟨t, ht, hrun⟩ := ih (behindChunk s c) (fun d hd => hcs d (List.mem_cons_of_mem c hd))
      (habs.frame.calm hcalm) (habs.room hroom) rest
    refine ⟨t, habs.trans ht, ?_⟩
    rw [List.map_cons, List.flatten_cons, List.append_assoc, readChunk hcalm hc hroom₁]
    exact hrun

/-- Behind the line of the last chunk. -/
def atEnd (s : ChunkState) : ChunkState :=
  ({ s.1 with chunkedContentParseState := .expectingFinalCrOrFootersAfterLastChunk }, s.2)

theorem readChunkText {b : ChunkedBody} (hb : b.Ok) {s : ChunkState} (hcalm : Calm s.1)
    (hroom : Room s b.data.length) (rest : Bytes) :
    ∃ t, Absorbed s b.data t ∧
      chunkScanner.run (atChunk s) (b.chunkText ++ rest) = chunkScanner.run (atEnd t) rest := by
  obtain ⟨t, ht, hrun⟩ := readChunks b.chunks s hb.chunks hcalm hroom (b.last.text ++ rest)
  have hlast := readChunkLine t.1 t.2 hb.last rest
  rw [if_pos rfl] at hlast
  let t' : ChunkState := ({ t.1 with
    chunkSizeStr := b.last.digits, bytesReadInCurrentChunk := 0, sizeOfCurrentChunk := 0 }, t.2)
  refine ⟨t', ?_, ?_⟩
  · have h := ht.trans (absorbed_of_fields (s := t) (t := t') ⟨rfl, rfl⟩ rfl rfl)
    rw [List.append_nil] at h
    exact h
  · unfold ChunkedBody.chunkText
    rw [List.append_assoc]
    exact hrun.trans hlast

/-- Without trailers, the chunk loop stops behind the final CRLF. -/
theorem readChunkedBody_done {b : ChunkedBody} (hb : b.Ok) (htr : b.trailers = []) {s : ChunkState}
    (hcalm : Calm s.1) (hroom : Room s b.data.length) (rest : Bytes) :
    ∃ t, Absorbed s b.data t ∧
      chunkScanner.run (atChunk s) (b.text ++ rest) = .stop .done t rest := by
  obtain ⟨t, ht, hrun⟩ := readChunkText hb hcalm hroom (stringCrlf ++ rest)
  let t' : ChunkState := ({ t.1 with chunkedContentParseState := .expectingFinalLfAfterLastChunk }, t.2)
  have hcr : chunkScanner.run (atEnd t) (cr :: lf :: rest) = chunkScanner.run t' (lf :: rest) :=
    chunkScanner_take (s := atEnd t) (fun h => by cases h) rfl
  have hlf : chunkScanner.run t' (lf :: rest) = .stop .done t' rest :=
    chunkScanner_stop (s := t') (u := true) (fun h => by cases h) rfl
  refine ⟨t', ?_, ?_⟩
  · have h := ht.trans (absorbed_of_fields (s := t) (t := t') ⟨rfl, rfl⟩ rfl rfl)
    rw [List.append_nil] at h
    exact h
  · unfold ChunkedBody.text headerText
    rw [htr, List.map_nil, List.flatten_nil, List.nil_append, List.append_assoc]
    exact hrun.trans (hcr.trans hlf)

/-- With trailers, it stops in front of the first one. -/
theorem readChunkedBody_footers {b : ChunkedBody} (hb : b.Ok) (htr : b.trailers ≠ []) {s : ChunkState}
    (hcalm : Calm s.1) (hroom : Room s b.data.length) (rest : Bytes) :
    ∃ t, Absorbed s b.data t ∧ chunkScanner.run (atChunk s) (b.text ++ rest) =
      .stop .footers (atEnd t) (headerText b.trailers ++ stringCrlf ++ rest) := by
  obtain ⟨t, ht, hrun⟩ := readChunkText hb hcalm hroom (headerText b.trailers ++ stringCrlf ++ rest)
  refine ⟨t, ht, ?_⟩
  obtain ⟨l, ls, hls⟩ := List.exists_cons_of_ne_nil htr
  have hl := (hb.trailers l (by rw [hls]; exact List.mem_cons_self)).header
  obtain ⟨c, cs, hname⟩ := List.exists_cons_of_ne_nil hl.name_ne
  have hc : c ≠ cr := ne_of_control (hl.name_token c (by rw [hname]; exact List.mem_cons_self)).not_control rfl
  obtain ⟨w, hw⟩ : ∃ w, headerText b.trailers ++ stringCrlf ++ rest = c :: w := by
    rw [hls]
    unfold headerText HeaderLine.text
    rw [List.map_cons, List.flatten_cons, show l.name = c :: cs from hname]
    exact ⟨_, rfl⟩
  have hstop : chunkScanner.run (atEnd t) (c :: w) = .stop .footers (atEnd t) (c :: w) := by
    refine chunkScanner_stop (s := atEnd t) (fun h => by cases h) (u := false) ?_
    unfold chunkSwitch atEnd
    dsimp only
    rw [if_neg hc]
  unfold ChunkedBody.text
  rw [List.append_assoc, hrun, hw]
  exact hstop

end Pion.Proof
