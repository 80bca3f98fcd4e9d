import Pion.Lib.Recogniser
import Pion.Proof.ChunkSize
import Pion.Proof.Overlong

/-!
# What the chunk loop accepts

The language of `parse_chunks`. A chunked body is a block of chunks with a last chunk
behind it, of size zero. Each size may have white space of any kind in front of it, line
ends too, and what a size says is what `strtol` makes of it. Data is whatever comes next,
as long as it fits into the chunk cache, or a payload handler takes it.

Behind the last chunk stands an empty line, or a byte that begins a trailer.
-/

namespace Pion.Proof

open Pion Lib

/-- Chunks and the line of the last chunk: their data, and their bytes with all that comes
behind. -/
inductive ChunkBlock (tail : Bytes) : Bytes → Bytes → Prop
  | last {l : SizeLine} : l.Written → strtol l.digits = 0 → ChunkBlock tail [] (l.text ++ tail)
  | chunk {l : SizeLine} {data more buf : Bytes} : l.Written → data ≠ [] →
      strtol l.digits = data.length → ChunkBlock tail more buf →
      ChunkBlock tail (data ++ more) (l.text ++ (data ++ (stringCrlf ++ buf)))

/-- The end of a chunked body, with or without trailers, and what is left behind it. -/
inductive EndsChunks : Bool → Bytes → Bytes → Prop
  | done (rest : Bytes) : EndsChunks false (cr :: lf :: rest) rest
  | footers {c : UInt8} (cs : Bytes) : c ≠ cr → EndsChunks true (c :: cs) (c :: cs)

/-- How the chunk loop ends in front of trailers, and without. -/
def chunksHalt : Bool → Halt
  | true => .footers
  | false => .done

/-- Where the data has gone. -/
def dataTaken (s : ChunkState) : Bytes × Bytes := (s.1.delivered, s.2)

/-- From `s`, the chunk loop accepts a front of `buf` and leaves `rest`. -/
abbrev YieldsChunks (trailers : Bool) (s : ChunkState) (buf : Bytes) (v : Bytes × Bytes)
    (rest : Bytes) : Prop :=
  Yields chunkScanner (chunksHalt trailers) dataTaken s buf v rest

theorem chunkScanner_acts {s : ChunkState} {c : UInt8} {a : SymbolAction ChunkState Halt}
    (hst : s.1.chunkedContentParseState ≠ .chunk) (h : chunkSwitch s c = a) :
    chunkScanner.Acts s c a := by
  intro cs
  show chunkStep s c cs = _
  unfold chunkStep
  rw [if_neg hst, h]

/-- The same run, from another state. -/
theorem yieldsChunks_congr {trailers : Bool} {s t : ChunkState} {buf cs : Bytes}
    (h : chunkScanner.run s buf = chunkScanner.run t cs) (v : Bytes × Bytes) (rest : Bytes) :
    YieldsChunks trailers s buf v rest ↔ YieldsChunks trailers t cs v rest := by
  unfold YieldsChunks Yields
  rw [h]

section line

variable {trailers : Bool} (p : ChunkFields) (cache : Bytes) (v : Bytes × Bytes) (rest : Bytes)

/-- A state that refuses the byte. -/
theorem chunks_fails {st : ChunkParseState} {c : UInt8} (hst : st ≠ .chunk)
    (h : chunkSwitch ({ p with chunkedContentParseState := st }, cache) c =
      chunkError ({ p with chunkedContentParseState := st }, cache)) :
    Fails chunkScanner (chunksHalt trailers) ({ p with chunkedContentParseState := st }, cache) c := by
  refine ⟨_, _, _, chunkScanner_acts hst h, ?_⟩
  cases trailers with
  | true => exact fun h => by cases h
  | false => exact fun h => by cases h

/-- A state that waits for one byte. -/
theorem chunks_symbol {st : ChunkParseState} {letter : UInt8} {s' : ChunkState} (hst : st ≠ .chunk)
    (h : ∀ c, chunkSwitch ({ p with chunkedContentParseState := st }, cache) c =
      if c = letter then .take s' else chunkError ({ p with chunkedContentParseState := st }, cache))
    (buf : Bytes) :
    YieldsChunks trailers ({ p with chunkedContentParseState := st }, cache) buf v rest ↔
      ∃ cs, buf = letter :: cs ∧ YieldsChunks trailers s' cs v rest :=
  yields_symbol (chunkScanner_acts hst ((h letter).trans (if_pos rfl)))
    (fun c hc => chunks_fails p cache hst ((h c).trans (if_neg hc))) buf v rest

/-! ## The line of a chunk -/

/-- White space in front of a size. -/
def WhiteByte (c : UInt8) : Prop := c = sp ∨ c = tab ∨ c = cr ∨ c = lf

theorem WhiteByte.not_hex {c : UInt8} (h : WhiteByte c) : ¬ isHexDigit c = true := by
  rcases h with rfl | rfl | rfl | rfl
  · decide
  · decide
  · decide
  · decide

theorem collects_white : Collects chunkScanner (chunksHalt trailers)
    (fun _ => ({ p with chunkedContentParseState := .chunkSizeStart }, cache)) WhiteByte
    fun _ => True := by
  refine .free fun w c hc => chunkScanner_acts (fun h => by cases h) ?_
  unfold chunkSwitch
  dsimp only
  rw [if_neg hc.not_hex]
  exact if_pos hc

theorem collects_digits : Collects chunkScanner (chunksHalt trailers)
    (fun w => ({ p with chunkSizeStr := w, chunkedContentParseState := .chunkSize }, cache))
    (fun c => isHexDigit c = true) fun _ => True := by
  refine .free fun w c hc => chunkScanner_acts (fun h => by cases h) ?_
  unfold chunkSwitch
  dsimp only
  exact if_pos hc

/-- The bytes that may stand behind a size. -/
def BehindSize (c : UInt8) : Prop := c = cr ∨ (c = sp ∨ c = tab) ∨ c = semicolon

/-- Where they lead to. -/
def behindSizeState (c : UInt8) : ChunkParseState :=
  if c = cr then .expectingLfAfterChunkSize
  else if c = sp ∨ c = tab then .expectingCrAfterChunkSize
  else .expectingIgnoredTextAfterChunkSize

theorem closed_digits : ClosedBy chunkScanner (chunksHalt trailers)
    (fun w => ({ p with chunkSizeStr := w, chunkedContentParseState := .chunkSize }, cache))
    (fun c => isHexDigit c = true) BehindSize
    (fun w c => ({ p with chunkSizeStr := w, chunkedContentParseState := behindSizeState c },
      cache)) := by
  refine ⟨?_, fun w c hc => ⟨?_, fun hend => ?_⟩⟩
  · rintro c (rfl | (rfl | rfl) | rfl)
    · decide
    · decide
    · decide
    · decide
  · rintro (rfl | (rfl | rfl) | rfl)
    · exact chunkScanner_acts (fun h => by cases h) rfl
    · exact chunkScanner_acts (fun h => by cases h) rfl
    · exact chunkScanner_acts (fun h => by cases h) rfl
    · exact chunkScanner_acts (fun h => by cases h) rfl
  · refine chunks_fails { p with chunkSizeStr := w } cache (fun h => by cases h) ?_
    unfold chunkSwitch
    dsimp only
    rw [if_neg hc, if_neg fun h => hend (.inl h), if_neg fun h => hend (.inr (.inl h)),
      if_neg fun h => hend (.inr (.inr h))]

theorem collects_trailingBlanks : Collects chunkScanner (chunksHalt trailers)
    (fun _ => ({ p with chunkedContentParseState := .expectingCrAfterChunkSize }, cache))
    (fun c => c = sp ∨ c = tab) fun _ => True := by
  refine .free fun w c hc => chunkScanner_acts (fun h => by cases h) ?_
  rcases hc with rfl | rfl
  · rfl
  · rfl

theorem closed_trailingBlanks : ClosedBy chunkScanner (chunksHalt trailers)
    (fun _ => ({ p with chunkedContentParseState := .expectingCrAfterChunkSize }, cache))
    (fun c => c = sp ∨ c = tab) (· = cr)
    (fun _ _ => ({ p with chunkedContentParseState := .expectingLfAfterChunkSize }, cache)) := by
  refine ⟨?_, fun w c hc => ⟨?_, fun hcr => ?_⟩⟩
  · rintro c rfl
    decide
  · rintro rfl
    exact chunkScanner_acts (fun h => by cases h) rfl
  · refine chunks_fails p cache (fun h => by cases h) ?_
    unfold chunkSwitch
    dsimp only
    rw [if_neg hcr, if_neg hc]

theorem collects_ignored : Collects chunkScanner (chunksHalt trailers)
    (fun _ => ({ p with chunkedContentParseState := .expectingIgnoredTextAfterChunkSize }, cache))
    (fun c => c ≠ cr) fun _ => True := by
  refine .free fun w c hc => chunkScanner_acts (fun h => by cases h) ?_
  unfold chunkSwitch
  dsimp only
  exact if_neg hc

theorem closed_ignored : ClosedBy chunkScanner (chunksHalt trailers)
    (fun _ => ({ p with chunkedContentParseState := .expectingIgnoredTextAfterChunkSize }, cache))
    (fun c => c ≠ cr) (· = cr)
    (fun _ _ => ({ p with chunkedContentParseState := .expectingLfAfterChunkSize }, cache)) := by
  refine ⟨fun c hc h => h hc, fun w c hc => ⟨?_, fun hcr => absurd hcr hc⟩⟩
  rintro rfl
  exact chunkScanner_acts (fun h => by cases h) rfl

/-- Behind a size, up to the CR. -/
theorem chunks_extension {c : UInt8} {cs : Bytes} (hc : BehindSize c)
    (hy : YieldsChunks trailers ({ p with chunkedContentParseState := behindSizeState c }, cache)
      cs v rest) :
    ∃ ext cs', c :: cs = ext ++ cr :: cs' ∧ ExtensionOk ext ∧
      YieldsChunks trailers ({ p with chunkedContentParseState := .expectingLfAfterChunkSize }, cache)
        cs' v rest := by
  have hblanks : c = sp ∨ c = tab →
      YieldsChunks trailers ({ p with chunkedContentParseState := .expectingCrAfterChunkSize }, cache)
        cs v rest → ∃ ext cs', c :: cs = ext ++ cr :: cs' ∧ ExtensionOk ext ∧ YieldsChunks trailers
          ({ p with chunkedContentParseState := .expectingLfAfterChunkSize }, cache) cs' v rest := by
    intro hc hy
    obtain ⟨w, _, cs', rfl, hw, _, rfl, hnext⟩ := (yields_closed (collects_trailingBlanks p cache)
      (closed_trailingBlanks p cache) v rest cs [] trivial).mp hy
    refine ⟨c :: w, cs', rfl, .inl ?_, hnext⟩
    intro d hd
    rcases List.mem_cons.mp hd with rfl | hd
    · exact hc
    · exact hw d hd
  rcases hc with rfl | (rfl | rfl) | rfl
  · exact ⟨[], cs, rfl, .inl fun d hd => absurd hd List.not_mem_nil, hy⟩
  · exact hblanks (.inl rfl) hy
  · exact hblanks (.inr rfl) hy
  · obtain ⟨w, _, cs', rfl, hw, _, rfl, hnext⟩ := (yields_closed (collects_ignored p cache)
      (closed_ignored p cache) v rest cs [] trivial).mp hy
    exact ⟨semicolon :: w, cs', rfl, .inr ⟨w, rfl, hw⟩, hnext⟩

end line

/-- The chunk loop behind the line of a chunk. -/
def behindLine (s : ChunkState) (digits : Bytes) : ChunkState :=
  ({ s.1 with
      chunkSizeStr := digits
      bytesReadInCurrentChunk := 0
      sizeOfCurrentChunk := strtol digits
      chunkedContentParseState :=
        if strtol digits = 0 then .expectingFinalCrOrFootersAfterLastChunk else .chunk }, s.2)

section chunk

variable {trailers : Bool} (s : ChunkState) (v : Bytes × Bytes) (rest : Bytes)

/-- **The line of a chunk.** -/
theorem chunks_line (buf : Bytes) :
    YieldsChunks trailers (atChunk s) buf v rest ↔ ∃ (l : SizeLine) (cs : Bytes), l.Written ∧
      buf = l.text ++ cs ∧ YieldsChunks trailers (behindLine s l.digits) cs v rest := by
  constructor
  · intro hy
    obtain ⟨blanks, c, cs, rfl, hblanks, _, hc, hy⟩ :=
      (yields_word (collects_white s.1 s.2) v rest buf [] trivial).mp hy
    by_cases hhex : isHexDigit c = true
    · have hfirst : ∀ c, isHexDigit c = true → True ∧ chunkScanner.Acts (atChunk s) c
          (.take ({ s.1 with chunkSizeStr := [c], chunkedContentParseState := .chunkSize }, s.2)) :=
        fun c hc => ⟨trivial, chunkScanner_acts (fun h => by cases h) (if_pos hc)⟩
      obtain ⟨digits, e, cs', hbuf, hne, hdigits, _, he, hnext⟩ := (yields_closed_first
        (collects_digits s.1 s.2) (closed_digits s.1 s.2) hfirst c cs v rest hhex).mp hy
      obtain ⟨ext, cs'', hext, hok, hlf⟩ :=
        chunks_extension { s.1 with chunkSizeStr := digits } s.2 v rest he hnext
      obtain ⟨behind, rfl, hline⟩ := (chunks_symbol { s.1 with chunkSizeStr := digits } s.2 v rest
        (fun h => by cases h) (fun _ => rfl) cs'').mp hlf
      refine ⟨⟨⟨digits, ext⟩, blanks⟩, behind, ⟨⟨hne, hdigits, hok⟩, hblanks⟩, ?_, hline⟩
      rw [hbuf, hext]
      unfold SizeLine.text ChunkLine.text
      simp only [List.append_assoc]
      rfl
    · have hfails : Fails chunkScanner (chunksHalt trailers) (atChunk s) c := by
        refine chunks_fails s.1 s.2 (fun h => by cases h) ?_
        unfold chunkSwitch
        dsimp only
        rw [if_neg hhex]
        exact if_neg hc
      exact absurd hy (hfails.not_yields cs v rest)
  · rintro ⟨l, cs, hl, rfl, hy⟩
    refine (yieldsChunks_congr ?_ v rest).mpr hy
    unfold SizeLine.text
    rw [List.append_assoc]
    exact (readBlanks s.1 s.2 hl.blank _).trans (readSizeLine s.1 s.2 hl.line cs)

/-- **Behind the last chunk.** -/
theorem chunks_end (buf : Bytes) :
    YieldsChunks trailers
        ({ s.1 with chunkedContentParseState := .expectingFinalCrOrFootersAfterLastChunk }, s.2)
        buf v rest ↔ EndsChunks trailers buf rest ∧ v = dataTaken s := by
  let last : ChunkState :=
    ({ s.1 with chunkedContentParseState := .expectingFinalCrOrFootersAfterLastChunk }, s.2)
  let final : ChunkState :=
    ({ s.1 with chunkedContentParseState := .expectingFinalLfAfterLastChunk }, s.2)
  have hcr : ∀ cs, chunkScanner.run last (cr :: cs) = chunkScanner.run final cs :=
    fun cs => chunkScanner_take (fun h => by cases h) rfl
  have hlf : ∀ cs, chunkScanner.run final (lf :: cs) = .stop .done final cs :=
    fun cs => chunkScanner_stop (u := true) (fun h => by cases h) rfl
  have hfooters : ∀ c cs, c ≠ cr → chunkScanner.run last (c :: cs) = .stop .footers last (c :: cs) :=
    fun c cs hc => chunkScanner_stop (u := false) (fun h => by cases h) (if_neg hc)
  have herror : ∀ c cs, c ≠ lf →
      chunkScanner.run final (c :: cs) = .stop (.error .chunkChar) final (c :: cs) :=
    fun c cs hc => chunkScanner_stop (u := false) (fun h => by cases h) (if_neg hc)
  constructor
  · rintro ⟨t, hrun, hv⟩
    cases buf with
    | nil =>
      rw [Scanner.run_nil] at hrun
      cases hrun
    | cons c cs =>
      by_cases hc : c = cr
      · subst hc
        have hrun := (hcr cs).symm.trans hrun
        cases cs with
        | nil =>
          rw [Scanner.run_nil] at hrun
          cases hrun
        | cons c cs =>
          by_cases hc : c = lf
          · subst hc
            have hrun := (hlf cs).symm.trans hrun
            cases trailers with
            | true => cases hrun
            | false =>
              cases hrun
              exact ⟨.done _, hv.symm⟩
          · have hrun := (herror c cs hc).symm.trans hrun
            cases trailers with
            | true => cases hrun
            | false => cases hrun
      · have hrun := (hfooters c cs hc).symm.trans hrun
        cases trailers with
        | true =>
          cases hrun
          exact ⟨.footers cs hc, hv.symm⟩
        | false => cases hrun
  · rintro ⟨hend, rfl⟩
    cases hend with
    | done => exact ⟨final, (hcr _).trans (hlf rest), rfl⟩
    | footers cs hc => exact ⟨last, hfooters _ cs hc, rfl⟩

/-! ## Data -/

/-- A chunk that has not arrived, or that does not fit, is waited for. -/
theorem run_inChunk_more (hcalm : Calm s.1) {n : Nat} (hn : 0 < n) (buf : Bytes)
    (h : Room s n → buf.length < n) : ∃ t, chunkScanner.run (inChunk s n) buf = .more t := by
  cases hk : s.1.payloadHandler with
  | some k =>
    have hshort : buf.length < n := h fun hnone => by rw [hk] at hnone; cases hnone
    cases buf with
    | nil => exact ⟨_, chunkScanner.run_nil _⟩
    | cons c cs =>
      have hstep : chunkScanner.step (inChunk s n) c cs =
          .next (afterSpan (inChunk s n) ((c :: cs).take n)) ((c :: cs).drop n) :=
        (chunkStep_chunk rfl c cs).trans (chunkData_handler (s := inChunk s n) hk (hcalm k hk) hn c cs)
      rw [List.drop_eq_nil_of_le (Nat.le_of_lt hshort)] at hstep
      exact ⟨_, (chunkScanner.run_cons_next hstep).trans (chunkScanner.run_nil _)⟩
  | none =>
    by_cases hfull : s.1.maxContentLength ≤ s.2.length
    · have hstuck : Stuck (inChunk s n) := ⟨rfl, hk, hfull, hn⟩
      exact ⟨_, hstuck.run buf⟩
    have hroom : s.2.length + (s.1.maxContentLength - s.2.length) = s.1.maxContentLength := by omega
    generalize s.1.maxContentLength - s.2.length = room at hroom
    by_cases hover : room < n ∧ room ≤ buf.length
    -- the cache fills up inside the chunk
    · have hlen : (buf.take room).length = room := List.length_take_of_le hover.2
      have hspan : chunkScanner.run (inChunk s n) (buf.take room ++ buf.drop room) = _ :=
        readSpan_cache hk hn (by omega) (by omega) (buf.drop room)
      rw [List.take_append_drop, partway_lt (by omega)] at hspan
      have hstuck : Stuck (partway s n (buf.take room)) := by
        refine ⟨rfl, hk, ?_, ?_⟩
        · show s.1.maxContentLength ≤ (s.2 ++ buf.take room).length
          rw [List.length_append]
          omega
        · show (buf.take room).length < n
          omega
      exact ⟨_, hspan.trans (hstuck.run _)⟩
    · have hshort : buf.length < n := by
        by_cases hlt : room < n
        · omega
        · exact h fun _ => by omega
      have hspan := readSpan_cache hk hn (Nat.le_of_lt hshort) (by omega) []
      rw [List.append_nil, Scanner.run_nil] at hspan
      exact ⟨_, hspan⟩

/-- **The data of a chunk.** -/
theorem chunks_data (hcalm : Calm s.1) {n : Nat} (hn : 0 < n) (buf : Bytes) :
    YieldsChunks trailers (inChunk s n) buf v rest ↔ ∃ data cs, buf = data ++ cs ∧
      data.length = n ∧ Room s n ∧
      YieldsChunks trailers (behindData (absorb s data) n) cs v rest := by
  constructor
  · rintro ⟨t, hrun, hv⟩
    by_cases hall : Room s n ∧ n ≤ buf.length
    · obtain ⟨hroom, hlen⟩ := hall
      have htake : (buf.take n).length = n := List.length_take_of_le hlen
      have hdata : chunkScanner.run (inChunk s (buf.take n).length) (buf.take n ++ buf.drop n) = _ :=
        readData hcalm (List.ne_nil_of_length_pos (by omega)) (by rwa [htake]) (buf.drop n)
      rw [htake, List.take_append_drop] at hdata
      exact ⟨buf.take n, buf.drop n, (List.take_append_drop n buf).symm, htake, hroom, t,
        hdata.symm.trans hrun, hv⟩
    · obtain ⟨t', hmore⟩ := run_inChunk_more s hcalm hn buf
        fun hroom => Nat.lt_of_not_le fun hle => hall ⟨hroom, hle⟩
      rw [hmore] at hrun
      cases hrun
  · rintro ⟨data, cs, rfl, rfl, hroom, hy⟩
    have hdata := readData hcalm (List.ne_nil_of_length_pos hn) hroom cs
    exact (yieldsChunks_congr hdata v rest).mpr hy

/-- The line end behind the data. -/
theorem chunks_crlf (n : Nat) (buf : Bytes) :
    YieldsChunks trailers (behindData s n) buf v rest ↔ ∃ cs, buf = stringCrlf ++ cs ∧
      YieldsChunks trailers (atChunk (behindData s n)) cs v rest := by
  have hcr : YieldsChunks trailers (behindData s n) buf v rest ↔ ∃ cs, buf = cr :: cs ∧ YieldsChunks
      trailers ({ (behindData s n).1 with chunkedContentParseState := .expectingLfAfterChunk }, s.2) cs v
      rest :=
    chunks_symbol (behindData s n).1 s.2 v rest (fun h => by cases h) (fun _ => rfl) buf
  have hlf : ∀ cs, YieldsChunks trailers
      ({ (behindData s n).1 with chunkedContentParseState := .expectingLfAfterChunk }, s.2) cs v rest ↔
        ∃ cs', cs = lf :: cs' ∧ YieldsChunks trailers (atChunk (behindData s n)) cs' v rest :=
    chunks_symbol (behindData s n).1 s.2 v rest (fun h => by cases h) fun _ => rfl
  constructor
  · intro hy
    obtain ⟨cs, rfl, hy⟩ := hcr.mp hy
    obtain ⟨cs, rfl, hy⟩ := (hlf cs).mp hy
    exact ⟨cs, rfl, hy⟩
  · rintro ⟨cs, rfl, hy⟩
    exact hcr.mpr ⟨lf :: cs, rfl, (hlf _).mpr ⟨cs, rfl, hy⟩⟩

/-- **One chunk, or the last one.** -/
theorem chunks_step (hcalm : Calm s.1) (buf : Bytes) :
    YieldsChunks trailers (atChunk s) buf v rest ↔
      (∃ (l : SizeLine) (cs : Bytes), l.Written ∧ strtol l.digits = 0 ∧ buf = l.text ++ cs ∧
        EndsChunks trailers cs rest ∧ v = dataTaken s) ∨
      (∃ (l : SizeLine) (data cs : Bytes), l.Written ∧ data ≠ [] ∧ strtol l.digits = data.length ∧
        buf = l.text ++ (data ++ (stringCrlf ++ cs)) ∧ Room s data.length ∧
        YieldsChunks trailers (behindChunk s ⟨l.toChunkLine, data⟩) cs v rest) := by
  have hlast : ∀ digits, strtol digits = 0 → ∀ cs, YieldsChunks trailers (behindLine s digits) cs v rest ↔
      EndsChunks trailers cs rest ∧ v = dataTaken s := by
    intro digits hzero cs
    unfold behindLine
    rw [if_pos hzero]
    exact chunks_end ({ s.1 with
      chunkSizeStr := digits, bytesReadInCurrentChunk := 0, sizeOfCurrentChunk := strtol digits }, s.2)
      v rest cs
  have hchunk : ∀ digits, strtol digits ≠ 0 → behindLine s digits =
      inChunk ({ s.1 with chunkSizeStr := digits }, s.2) (strtol digits) := by
    intro digits hsize
    unfold behindLine
    rw [if_neg hsize]
    rfl
  have hbehind : ∀ (l : SizeLine) (data : Bytes),
      atChunk (behindData (absorb ({ s.1 with chunkSizeStr := l.digits }, s.2) data) data.length) =
        behindChunk s ⟨l.toChunkLine, data⟩ := by
    intro l data
    unfold atChunk behindChunk behindData absorb
    dsimp only
    split
    · rfl
    · rfl
  rw [chunks_line]
  constructor
  · rintro ⟨l, cs, hl, rfl, hy⟩
    by_cases hzero : strtol l.digits = 0
    · obtain ⟨hend, hv⟩ := (hlast l.digits hzero cs).mp hy
      exact .inl ⟨l, cs, hl, hzero, rfl, hend, hv⟩
    · rw [hchunk l.digits hzero] at hy
      obtain ⟨data, cs, rfl, hlen, hroom, hdata⟩ := (chunks_data
        ({ s.1 with chunkSizeStr := l.digits }, s.2) v rest hcalm (Nat.pos_of_ne_zero hzero) cs).mp hy
      rw [← hlen] at hdata hroom
      obtain ⟨cs, rfl, hnext⟩ := (chunks_crlf _ v rest _ cs).mp hdata
      rw [hbehind] at hnext
      have hne : data ≠ [] := List.ne_nil_of_length_pos (by omega)
      exact .inr ⟨l, data, cs, hl, hne, hlen.symm, rfl, hroom, hnext⟩
  · rintro (⟨l, cs, hl, hzero, rfl, hend, hv⟩ | ⟨l, data, cs, hl, hne, hlen, rfl, hroom, hy⟩)
    · exact ⟨l, cs, hl, rfl, (hlast l.digits hzero cs).mpr ⟨hend, hv⟩⟩
    · have hpos := List.length_pos_of_ne_nil hne
      refine ⟨l, _, hl, rfl, ?_⟩
      rw [hchunk l.digits (by omega), hlen]
      refine (chunks_data ({ s.1 with chunkSizeStr := l.digits }, s.2) v rest hcalm hpos _).mpr
        ⟨data, _, rfl, rfl, hroom, ?_⟩
      rw [← hbehind l data] at hy
      exact (chunks_crlf _ v rest _ _).mpr ⟨cs, rfl, hy⟩

end chunk

/-! ## Blocks -/

theorem dataTaken_absorb (s : ChunkState) (c : Chunk) (more : Bytes) :
    dataTaken (absorb (behindChunk s c) more) = dataTaken (absorb s (c.data ++ more)) := by
  have habsorbed := (absorbed_behindChunk s c).trans
    (⟨absorb_frame _ more, rfl, rfl⟩ : Absorbed (behindChunk s c) more (absorb (behindChunk s c) more))
  unfold dataTaken
  rw [habsorbed.delivered, habsorbed.cache]

/-- **Every block is accepted**, as long as its data fits. -/
theorem chunks_of_block {trailers : Bool} {tail rest : Bytes} (hend : EndsChunks trailers tail rest)
    {data buf : Bytes} (h : ChunkBlock tail data buf) : ∀ s : ChunkState, Calm s.1 →
      (data = [] ∨ Room s data.length) →
      YieldsChunks trailers (atChunk s) buf (dataTaken (absorb s data)) rest := by
  induction h with
  | @last l hl hzero =>
    intro s hcalm _
    rw [absorb_nil]
    exact (chunks_step s _ rest hcalm _).mpr (.inl ⟨l, tail, hl, hzero, rfl, hend, rfl⟩)
  | @chunk l data more buf hl hne hsize _ ih =>
    intro s hcalm hroom
    have hall : Room s (data ++ more).length :=
      hroom.resolve_left fun h => hne (List.append_eq_nil_iff.mp h).1
    have hdata : Room s data.length := by
      intro hk
      have hle := hall hk
      rw [List.length_append] at hle
      omega
    have habsorbed := absorbed_behindChunk s ⟨l.toChunkLine, data⟩
    have hnext := ih (behindChunk s ⟨l.toChunkLine, data⟩) (habsorbed.frame.calm hcalm)
      (.inr (habsorbed.room hall))
    rw [dataTaken_absorb] at hnext
    exact (chunks_step s _ rest hcalm _).mpr
      (.inr ⟨l, data, buf, hl, hne, hsize, rfl, hdata, hnext⟩)

/-- **Nothing else is accepted.** By induction on what is left of the buffer. -/
theorem block_of_chunks {trailers : Bool} {rest : Bytes} {v : Bytes × Bytes} : ∀ (n : Nat) (buf : Bytes),
    buf.length ≤ n → ∀ s : ChunkState, Calm s.1 → YieldsChunks trailers (atChunk s) buf v rest →
      ∃ data tail, EndsChunks trailers tail rest ∧ ChunkBlock tail data buf ∧
        (data = [] ∨ Room s data.length) ∧ v = dataTaken (absorb s data) := by
  intro n
  induction n with
  | zero =>
    intro buf hbuf s _ hy
    rw [List.length_eq_zero_iff.mp (Nat.le_zero.mp hbuf)] at hy
    exact absurd hy (not_yields_nil _ v rest)
  | succ n ih =>
    intro buf hbuf s hcalm hy
    rcases (chunks_step s v rest hcalm buf).mp hy with
      ⟨l, tail, hl, hzero, rfl, hend, rfl⟩ | ⟨l, data, cs, hl, hne, hsize, rfl, hroom, hnext⟩
    · exact ⟨[], tail, hend, .last hl hzero, .inl rfl, by rw [absorb_nil]⟩
    · have hpos := List.length_pos_of_ne_nil hne
      have hshort : cs.length ≤ n := by
        simp only [List.length_append] at hbuf
        omega
      have habsorbed := absorbed_behindChunk s ⟨l.toChunkLine, data⟩
      obtain ⟨more, tail, hend, hblock, hmore, rfl⟩ := ih cs hshort
        (behindChunk s ⟨l.toChunkLine, data⟩) (habsorbed.frame.calm hcalm) hnext
      refine ⟨data ++ more, tail, hend, .chunk hl hne hsize hblock, .inr ?_, dataTaken_absorb s _ more⟩
      rcases hmore with rfl | hmore
      · rwa [List.append_nil]
      · intro hk
        have hk' := hmore (habsorbed.frame.1.trans hk)
        rw [habsorbed.cache, habsorbed.frame.2, absorb_cache hk] at hk'
        simp only [List.length_append] at hk' ⊢
        omega

/-! ## Parsers -/

/-- `parse_chunks` returns true, leaves `rest` behind, and goes on to the trailers or not. -/
structure ReadsChunks (g : Progress) (trailers : Bool) (rest : Bytes) (v : Bytes × Bytes) : Prop where
  rc : (parseChunks g).2 = some .true
  unread : (parseChunks g).1.unread = rest
  state : (parseChunks g).1.parser.messageParseState = .footers ↔ trailers = true
  data : dataTaken ((parseChunks g).1.parser.toChunkFields, (parseChunks g).1.msg.chunkCache) = v

theorem readsChunks_iff_yields {g : Progress} (hstate : g.parser.messageParseState = .chunks)
    (trailers : Bool) (rest : Bytes) (v : Bytes × Bytes) :
    ReadsChunks g trailers rest v ↔
      YieldsChunks trailers (g.parser.toChunkFields, g.msg.chunkCache) g.unread v rest := by
  have hchunks : g.parser.messageParseState ≠ .footers := by
    rw [hstate]
    exact fun h => by cases h
  constructor
  · rintro ⟨hrc, hrest, hnext, hv⟩
    unfold parseChunks at hrc hrest hnext hv
    dsimp only at hrc hrest hnext hv
    unfold YieldsChunks Yields
    generalize chunkScanner.run (g.parser.toChunkFields, g.msg.chunkCache) g.unread = o
      at hrc hrest hnext hv
    rcases o with s | ⟨_ | _ | e | _, s, left⟩
    · cases hrc
    · obtain rfl : trailers = false := Bool.eq_false_iff.mpr fun h => hchunks (hnext.mpr h)
      exact ⟨s, by rw [← hrest]; rfl, hv⟩
    · obtain rfl : trailers = true := hnext.mp rfl
      exact ⟨s, by rw [← hrest]; rfl, hv⟩
    · cases hrc
    · cases hrc
  · rintro ⟨s, hrun, hv⟩
    cases trailers with
    | true =>
      have hparse := parseChunks_footers hrun
      exact ⟨by rw [hparse], by rw [hparse], by rw [hparse]; exact ⟨fun _ => rfl, fun _ => rfl⟩,
        by rw [hparse]; exact hv⟩
    | false =>
      have hparse := parseChunks_done hrun
      refine ⟨by rw [hparse], by rw [hparse], ?_, by rw [hparse]; exact hv⟩
      rw [hparse]
      exact ⟨fun h => absurd h hchunks, fun h => by cases h⟩

/--
**What `parse_chunks` accepts, and what it reads.** In front of a chunk, it returns true and
leaves `rest` behind if and only if the buffer is a block of chunks whose data fits, with the end
of the body and `rest` behind it. The data goes where it should, and a byte other than CR behind
the last chunk is left to the trailers.
-/
theorem chunks_accepted (g : Progress) (hstate : g.parser.messageParseState = .chunks)
    (hstart : g.parser.chunkedContentParseState = .chunkSizeStart)
    (hcalm : Calm g.parser.toChunkFields) (trailers : Bool) (rest : Bytes) (v : Bytes × Bytes) :
    ReadsChunks g trailers rest v ↔
      ∃ data tail, EndsChunks trailers tail rest ∧ ChunkBlock tail data g.unread ∧
        (data = [] ∨ Room (g.parser.toChunkFields, g.msg.chunkCache) data.length) ∧
        v = dataTaken (absorb (g.parser.toChunkFields, g.msg.chunkCache) data) := by
  have hself : YieldsChunks trailers (g.parser.toChunkFields, g.msg.chunkCache) g.unread v rest ↔
      YieldsChunks trailers (atChunk (g.parser.toChunkFields, g.msg.chunkCache)) g.unread v rest := by
    rw [atChunk_self hstart]
  refine (readsChunks_iff_yields hstate trailers rest v).trans (hself.trans ⟨?_, ?_⟩)
  · exact block_of_chunks g.unread.length g.unread (Nat.le_refl _) _ hcalm
  · rintro ⟨data, tail, hend, hblock, hroom, rfl⟩
    exact chunks_of_block hend hblock _ hcalm hroom

/-- White space in front of the sizes, an extension, and a trailer that is left. -/
def looseChunks : Progress where
  parser := chunkParser
  msg := HttpRequest.fresh
  ec := none
  unread := str "\r\n\t3;x\r\nabc\r\n 0 \r\nA:b"

theorem chunks_accepted_loose : ReadsChunks looseChunks true (str "A:b") ([], str "abc") :=
  (chunks_accepted looseChunks rfl rfl (calm_none rfl) true (str "A:b") ([], str "abc")).mpr
    ⟨str "abc", str "A:b", .footers (str ":b") (by decide),
      @ChunkBlock.chunk _ ⟨⟨str "3", str ";x"⟩, str "\r\n\t"⟩ (str "abc") [] _
        ⟨⟨by decide, by decide, by decide⟩, by decide⟩ (by decide) (by decide)
        (@ChunkBlock.last _ ⟨⟨str "0", str " "⟩, str " "⟩
          ⟨⟨by decide, by decide, by decide⟩, by decide⟩ (by decide)),
      .inr fun _ => by decide, rfl⟩

end Pion.Proof
