import Pion.Proof.Phases

/-!
# Where the read buffers end cannot be seen

A TCP read may end at any byte. `parse_append` says that the parser does not
notice: a buffer `a` that leaves it waiting, followed by a buffer `b`, ends in the
same result, message and unread bytes as `a ++ b` in one piece, and a buffer that
it finishes with is finished with in the same way when more bytes stand behind it.

The byte loops have this from the library, since each of their steps looks at one
byte; the exception is chunk data for a payload handler, which is taken in spans.
What is left is the loop of `parse` itself, whose passes may use up no byte at all.
-/

namespace Pion.Proof

open Pion Lib

variable {x : Externals} {hook : Hook}

/-! ## The chunk loop splits -/

theorem endOfChunk_read_lt {s : ChunkState}
    (h : s.1.bytesReadInCurrentChunk < s.1.sizeOfCurrentChunk) : endOfChunk s = s := by
  unfold endOfChunk
  rw [if_neg (Nat.ne_of_lt h)]

theorem chunkStep_chunk {s : ChunkState} (h : s.1.chunkedContentParseState = .chunk) (c : UInt8)
    (cs : Bytes) : chunkStep s c cs = chunkData s c cs := by
  unfold chunkStep
  rw [if_pos h]

/-- Where the chunk loop stands after the payload handler took `span`. -/
def afterSpan (s : ChunkState) (span : Bytes) : ChunkState :=
  endOfChunk ({ s.1 with
    delivered := s.1.delivered ++ span
    bytesReadInCurrentChunk := s.1.bytesReadInCurrentChunk + span.length }, s.2)

/-- A span that does not complete the chunk may as well be part of a longer one. -/
theorem afterSpan_append {s : ChunkState} {u v : Bytes}
    (h : s.1.bytesReadInCurrentChunk + u.length < s.1.sizeOfCurrentChunk) :
    afterSpan (afterSpan s u) v = afterSpan s (u ++ v) := by
  unfold afterSpan
  rw [endOfChunk_read_lt (s := (_, s.2)) h]
  simp only [List.append_assoc, List.length_append, Nat.add_assoc]

/-- Chunk data for a payload handler that does not throw. -/
theorem chunkData_handler {s : ChunkState} {h : PayloadHandler} (hh : s.1.payloadHandler = some h)
    (hcalm : NoThrow h) (hlt : s.1.bytesReadInCurrentChunk < s.1.sizeOfCurrentChunk)
    (c : UInt8) (cs : Bytes) :
    chunkData s c cs =
      .next (afterSpan s ((c :: cs).take (s.1.sizeOfCurrentChunk - s.1.bytesReadInCurrentChunk)))
        ((c :: cs).drop (s.1.sizeOfCurrentChunk - s.1.bytesReadInCurrentChunk)) := by
  unfold chunkData
  dsimp only
  rw [if_pos hlt, hh]
  dsimp only
  rw [deliver_noThrow hcalm]
  unfold afterSpan
  rcases Nat.le_total (s.1.sizeOfCurrentChunk - s.1.bytesReadInCurrentChunk) (c :: cs).length
    with hle | hle
  · rw [Nat.min_eq_left hle, List.length_take_of_le hle]
  · rw [Nat.min_eq_right hle, List.take_of_length_le hle, List.take_length,
      List.drop_eq_nil_of_le hle, List.drop_length]

/-- A chunk that reaches beyond the buffer is completed from the next one. -/
theorem chunkData_split {s : ChunkState} (hs : Calm s.1)
    (hst : s.1.chunkedContentParseState = .chunk) (c : UInt8) (cs b : Bytes) :
    chunkData s c (cs ++ b) = (chunkData s c cs).push b ∨
      ∃ s', chunkData s c cs = .next s' [] ∧
        ∀ d ds, b = d :: ds → chunkData s c (cs ++ b) = chunkStep s' d ds := by
  by_cases hlt : s.1.bytesReadInCurrentChunk < s.1.sizeOfCurrentChunk
  · cases hh : s.1.payloadHandler with
    | none =>
      refine Or.inl ?_
      unfold chunkData
      dsimp only
      rw [if_pos hlt, hh]
      dsimp only
      split <;> rfl
    | some h =>
      have hcalm := hs h hh
      rw [chunkData_handler hh hcalm hlt, chunkData_handler hh hcalm hlt, ← List.cons_append]
      by_cases hfit : s.1.sizeOfCurrentChunk - s.1.bytesReadInCurrentChunk ≤ (c :: cs).length
      · refine Or.inl ?_
        rw [List.take_append_of_le_length hfit, List.drop_append_of_le_length hfit]
        rfl
      · -- the chunk needs more than this buffer holds
        have hlen : s.1.bytesReadInCurrentChunk + (c :: cs).length < s.1.sizeOfCurrentChunk := by
          omega
        have hfull : (c :: cs).take (s.1.sizeOfCurrentChunk - s.1.bytesReadInCurrentChunk) = c :: cs :=
          List.take_of_length_le (by omega)
        have hafter : afterSpan s (c :: cs) = ({ s.1 with
            delivered := s.1.delivered ++ (c :: cs)
            bytesReadInCurrentChunk := s.1.bytesReadInCurrentChunk + (c :: cs).length }, s.2) :=
          endOfChunk_read_lt (s := (_, s.2)) hlen
        have hleft : s.1.sizeOfCurrentChunk - s.1.bytesReadInCurrentChunk =
            (c :: cs).length + (s.1.sizeOfCurrentChunk -
              (s.1.bytesReadInCurrentChunk + (c :: cs).length)) := by omega
        refine Or.inr ⟨afterSpan s (c :: cs), ?_, ?_⟩
        · rw [hfull, List.drop_eq_nil_of_le (by omega)]
        · intro d ds hb
          rw [chunkStep_chunk (by rw [hafter]; exact hst),
            chunkData_handler (by rw [hafter]; exact hh) hcalm (by rw [hafter]; exact hlen), ← hb,
            afterSpan_append hlen]
          rw [hafter]
          dsimp only
          rw [hleft, List.take_length_add_append, List.drop_length_add_append]
  · refine Or.inl ?_
    unfold chunkData
    dsimp only
    rw [if_neg hlt, if_neg hlt]
    rfl

theorem chunkScanner_splits : chunkScanner.SplitsOn fun s => Calm s.1 := by
  refine ⟨fun s c cs s' rest hs h => (chunkStep_frame h).calm hs, ?_⟩
  intro s c cs b hs
  by_cases hst : s.1.chunkedContentParseState = .chunk
  · change chunkStep s c (cs ++ b) = (chunkStep s c cs).push b ∨
      ∃ s', chunkStep s c cs = .next s' [] ∧
        ∀ d ds, b = d :: ds → chunkStep s c (cs ++ b) = chunkStep s' d ds
    rw [chunkStep_chunk hst, chunkStep_chunk hst]
    exact chunkData_split hs hst c cs b
  · refine Or.inl ?_
    change chunkStep s c (cs ++ b) = (chunkStep s c cs).push b
    unfold chunkStep
    rw [if_neg hst, if_neg hst]
    cases chunkSwitch s c with
    | take t => rfl
    | stop r t u => cases u <;> rfl

/-! ## Points of a parse, up to the byte counters

`m_bytes_last_read` depends on where the buffers end by its very meaning. The other
two counters are not brought up to date when a phase fails, so there, too, they
depend on it; nothing reads them after that.
-/

/-- More bytes behind the buffer. -/
def push (g : Progress) (b : Bytes) : Progress := { g with unread := g.unread ++ b }

/-- `set_read_buffer`. -/
def setReadBuffer (g : Progress) (b : Bytes) : Progress := { g with unread := b }

def forgetLast (p : HttpParser) : HttpParser := { p with bytesLastRead := 0 }

def uncount (p : HttpParser) : HttpParser :=
  { p with bytesLastRead := 0, bytesTotalRead := 0, bytesContentRead := 0 }

/-- The same point of a parse, up to `m_bytes_last_read`. -/
structure Same (g g' : Progress) : Prop where
  parser : forgetLast g.parser = forgetLast g'.parser
  msg : g.msg = g'.msg
  ec : g.ec = g'.ec
  unread : g.unread = g'.unread

/-- The same point of a parse, up to all byte counters if the parse has failed. -/
structure Agree (rc : Except Exn Tribool) (g g' : Progress) : Prop where
  parser : uncount g.parser = uncount g'.parser
  same : rc ≠ .ok .false → Same g g'
  msg : g.msg = g'.msg
  ec : g.ec = g'.ec
  unread : g.unread = g'.unread

theorem uncount_eq {p q : HttpParser} (h : forgetLast p = forgetLast q) : uncount p = uncount q :=
  congrArg (fun r : HttpParser => { r with bytesTotalRead := 0, bytesContentRead := 0 }) h

theorem Same.agree {g g' : Progress} (h : Same g g') (rc : Except Exn Tribool) : Agree rc g g' :=
  ⟨uncount_eq h.parser, fun _ => h, h.msg, h.ec, h.unread⟩

/-- Points that are the same differ by the counter itself. -/
theorem Same.exists_last {g g' : Progress} (h : Same g g') :
    ∃ n, g' = { g with parser := { g.parser with bytesLastRead := n } } := by
  obtain ⟨p', m', ec', u'⟩ := g'
  obtain ⟨rfl, rfl, rfl⟩ : g.msg = m' ∧ g.ec = ec' ∧ g.unread = u' := ⟨h.msg, h.ec, h.unread⟩
  have hp := congrArg (fun r : HttpParser => { r with bytesLastRead := p'.bytesLastRead }) h.parser
  exact ⟨p'.bytesLastRead, by rw [show p' = _ from hp.symm]; rfl⟩

theorem same_last (g : Progress) (n : Nat) :
    Same g { g with parser := { g.parser with bytesLastRead := n } } := ⟨rfl, rfl, rfl, rfl⟩

theorem Same.refl (g : Progress) : Same g g := ⟨rfl, rfl, rfl, rfl⟩

theorem Same.trans {g₁ g₂ g₃ : Progress} (h : Same g₁ g₂) (h' : Same g₂ g₃) : Same g₁ g₃ :=
  ⟨h.parser.trans h'.parser, h.msg.trans h'.msg, h.ec.trans h'.ec, h.unread.trans h'.unread⟩

theorem Agree.trans_same {rc : Except Exn Tribool} {g₁ g₂ g₃ : Progress} (h : Agree rc g₁ g₂)
    (h' : Same g₂ g₃) : Agree rc g₁ g₃ :=
  ⟨h.parser.trans (uncount_eq h'.parser), fun hne => (h.same hne).trans h', h.msg.trans h'.msg,
    h.ec.trans h'.ec, h.unread.trans h'.unread⟩

/-! ## A pass does not look at `m_bytes_last_read` -/

theorem decideFraming_last (p : HttpParser) (m : HttpRequest) (n : Nat) :
    decideFraming x { p with bytesLastRead := n } m =
      (decideFraming x p m).map fun r => ({ r.1 with bytesLastRead := n }, r.2) := by
  unfold decideFraming
  dsimp only
  repeat' split
  all_goals rfl

theorem finishHeaderParsing_last (g : Progress) (n : Nat) :
    finishHeaderParsing x hook { g with parser := { g.parser with bytesLastRead := n } } =
      ({ (finishHeaderParsing x hook g).1 with
          parser := { (finishHeaderParsing x hook g).1.parser with bytesLastRead := n } },
        (finishHeaderParsing x hook g).2) := by
  simp only [finishHeaderParsing_eq]
  have hb : beforeFraming x { g.parser with bytesLastRead := n } g.msg =
      ({ (beforeFraming x g.parser g.msg).1 with bytesLastRead := n },
        (beforeFraming x g.parser g.msg).2) := rfl
  rw [hb]
  dsimp only
  rw [decideFraming_last (beforeFraming x g.parser g.msg).1 _ n]
  cases hd : decideFraming x (beforeFraming x g.parser g.msg).1 (beforeFraming x g.parser g.msg).2 with
  | none => rfl
  | some r =>
    obtain ⟨q, m, rc⟩ := r
    dsimp only [Option.map_some]
    cases hook m g.ec rc with
    | error e => rfl
    | ok r => rfl

theorem consumeContent_last (g : Progress) (n : Nat) :
    Same (consumeContent g).1
        (consumeContent { g with parser := { g.parser with bytesLastRead := n } }).1 ∧
      (consumeContent { g with parser := { g.parser with bytesLastRead := n } }).2 =
        (consumeContent g).2 := by
  unfold consumeContent
  dsimp only
  split
  · exact ⟨same_last g n, rfl⟩
  · have hd : ∀ (p : HttpParser) (h : PayloadHandler) (data : Bytes),
        ({ p with bytesLastRead := n } : HttpParser).deliver h data = p.deliver h data :=
      fun _ _ _ => rfl
    split
    · rename_i h _
      cases hdel : ChunkFields.deliver g.parser.toChunkFields h
          (g.unread.take (min g.unread.length g.parser.bytesContentRemaining)) with
      | none => exact ⟨⟨rfl, rfl, rfl, rfl⟩, rfl⟩
      | some q => exact ⟨⟨rfl, rfl, rfl, rfl⟩, rfl⟩
    · exact ⟨⟨rfl, rfl, rfl, rfl⟩, rfl⟩

/-- **A pass does not look at `m_bytes_last_read`.** -/
theorem parseSwitch_same (x : Externals) (hook : Hook) {g g' : Progress} (h : Same g g') (t t' : Nat) :
    Same (parseSwitch x hook g t).1 (parseSwitch x hook g' t').1 ∧
      (parseSwitch x hook g t).2.2 = (parseSwitch x hook g' t').2.2 := by
  -- no phase reads `bytesLastRead`
  have hcase : ∀ (g : Progress) (n : Nat),
      Same (parseHeadersCase x hook g t).1 (parseHeadersCase x hook
          { g with parser := { g.parser with bytesLastRead := n } } t').1 ∧
        (parseHeadersCase x hook g t).2.2 = (parseHeadersCase x hook
          { g with parser := { g.parser with bytesLastRead := n } } t').2.2 := by
    intro g n
    unfold parseHeadersCase
    rw [show parseHeaders x { g with parser := { g.parser with bytesLastRead := n } } =
      parseHeaders x g from rfl]
    dsimp only
    split
    · exact ⟨Same.refl _, rfl⟩
    · exact ⟨Same.refl _, rfl⟩
  obtain ⟨n, rfl⟩ := h.exists_last
  cases hst : g.parser.messageParseState with
  | start =>
    rw [parseSwitch_start hst, parseSwitch_start (by exact hst)]
    exact hcase { g with parser := { g.parser with messageParseState := .headers } } n
  | headers =>
    rw [parseSwitch_headers hst, parseSwitch_headers (by exact hst)]
    exact hcase g n
  | footers =>
    rw [parseSwitch_footers hst, parseSwitch_footers (by exact hst)]
    exact hcase g n
  | chunks =>
    rw [parseSwitch_chunks hst, parseSwitch_chunks (by exact hst)]
    unfold parseChunksCase
    rw [show parseChunks { g with parser := { g.parser with bytesLastRead := n } } =
      parseChunks g from rfl]
    dsimp only
    split
    · exact ⟨Same.refl _, rfl⟩
    · split
      · exact ⟨Same.refl _, rfl⟩
      · exact ⟨Same.refl _, rfl⟩
  | content =>
    rw [parseSwitch_content hst, parseSwitch_content (by exact hst)]
    obtain ⟨h1, h2⟩ := consumeContent_last g n
    rw [h2]
    split
    · exact ⟨h1, rfl⟩
    · exact ⟨h1, rfl⟩
  | contentNoLength =>
    rw [parseSwitch_contentNoLength hst, parseSwitch_contentNoLength (by exact hst)]
    rw [show consumeContentAsNextChunk { g with parser := { g.parser with bytesLastRead := n } } =
      consumeContentAsNextChunk g from rfl]
    split
    · exact ⟨Same.refl _, rfl⟩
    · exact ⟨Same.refl _, rfl⟩
  | «end» =>
    rw [parseSwitch_end hst, parseSwitch_end (by exact hst)]
    exact ⟨same_last g n, rfl⟩

theorem parseLoop_same (x : Externals) (hook : Hook) : ∀ (k : Nat) {g g' : Progress}, Same g g' → ∀ (t t' : Nat),
    Same (parseLoop x hook k g t).1 (parseLoop x hook k g' t').1 ∧
      (parseLoop x hook k g t).2.2 = (parseLoop x hook k g' t').2.2 := by
  intro k
  induction k with
  | zero => intro g g' h t t'; exact ⟨h, rfl⟩
  | succ k ih =>
    intro g g' h t t'
    obtain ⟨h1, h2⟩ := parseSwitch_same x hook h t t'
    rw [parseLoop, parseLoop]
    rcases hr : parseSwitch x hook g t with ⟨u, s, rc⟩
    rcases hr' : parseSwitch x hook g' t' with ⟨u', s', rc'⟩
    rw [hr, hr'] at h1 h2
    dsimp only at h1 h2
    subst h2
    rcases rc with e | b
    · exact ⟨h1, rfl⟩
    · cases b with
      | true => exact ⟨h1, rfl⟩
      | false => exact ⟨h1, rfl⟩
      | indeterminate =>
        dsimp only
        rw [h1.unread]
        split
        · exact ⟨h1, rfl⟩
        · exact ih h1 s s'

/-! ## The header phase splits -/

theorem finishHeaderParsing_push (g : Progress) (b : Bytes) :
    finishHeaderParsing x hook (push g b) =
      (push (finishHeaderParsing x hook g).1 b, (finishHeaderParsing x hook g).2) := by
  simp only [finishHeaderParsing_eq]
  dsimp only [push]
  cases decideFraming x (beforeFraming x g.parser g.msg).1 (beforeFraming x g.parser g.msg).2 with
  | none => rfl
  | some r =>
    obtain ⟨q, m, rc⟩ := r
    dsimp only
    cases hook m g.ec rc with
    | error e => rfl
    | ok r => rfl

theorem finishHeaderParsing_same (x : Externals) (hook : Hook) {g g' : Progress} (h : Same g g') :
    Same (finishHeaderParsing x hook g).1 (finishHeaderParsing x hook g').1 ∧
      (finishHeaderParsing x hook g).2 = (finishHeaderParsing x hook g').2 := by
  obtain ⟨n, rfl⟩ := h.exists_last
  rw [finishHeaderParsing_last g n]
  exact ⟨same_last _ n, rfl⟩

theorem headerScanner_append (s : HeaderState) (a b : Bytes) :
    (headerScanner x).run s (a ++ b) = ((headerScanner x).run s a).andThen (headerScanner x).run b :=
  (headerScanner x).run_append (Scanner.ofSymbols_splits (headerStep x)) a b s trivial

/-- A header phase that has come to its end leaves the bytes behind it alone. -/
theorem parseHeaders_push {g : Progress} (b : Bytes) (h : (parseHeaders x g).2 ≠ .indeterminate) :
    parseHeaders x (push g b) = (push (parseHeaders x g).1 b, (parseHeaders x g).2) := by
  unfold parseHeaders at h ⊢
  dsimp only [push] at h ⊢
  rw [headerScanner_append]
  cases hr : (headerScanner x).run (g.parser.toHeaderFields, g.msg) g.unread with
  | more s => rw [hr] at h; exact absurd rfl h
  | stop r s rest =>
    cases r with
    | none =>
      dsimp only [Outcome.andThen]
      rw [List.length_append, List.length_append, Nat.add_sub_add_right]
    | some e => rfl

/-- A header phase that waits for more goes on with the next buffer. -/
theorem parseHeaders_resume {g : Progress} (b : Bytes) (h : (parseHeaders x g).2 = .indeterminate) :
    (parseHeaders x (push g b)).2 = (parseHeaders x (setReadBuffer (parseHeaders x g).1 b)).2 ∧
      Agree (.ok (parseHeaders x (push g b)).2) (parseHeaders x (push g b)).1
        (parseHeaders x (setReadBuffer (parseHeaders x g).1 b)).1 := by
  unfold parseHeaders at h ⊢
  dsimp only [push] at h ⊢
  rw [headerScanner_append]
  cases hr : (headerScanner x).run (g.parser.toHeaderFields, g.msg) g.unread with
  | stop r s rest => rw [hr] at h; cases r <;> cases h
  | more s =>
    dsimp only [setReadBuffer, Outcome.andThen, HttpParser.account]
    cases hb : (headerScanner x).run (s.1, s.2) b with
    | more s' =>
      -- only the byte counts are not equal by computation
      have hn : g.parser.bytesTotalRead + (g.unread ++ b).length =
          g.parser.bytesTotalRead + g.unread.length + b.length := by
        rw [List.length_append, Nat.add_assoc]
      refine ⟨rfl, Same.agree ?_ _⟩
      refine ⟨?_, rfl, rfl, rfl⟩
      dsimp only [forgetLast]
      rw [hn]
    | stop r s' rest =>
      cases r with
      -- an error leaves the counters of the last pass alone, which `Agree` allows
      | some e => exact ⟨rfl, rfl, fun hne => absurd rfl hne, rfl, rfl, rfl⟩
      | none =>
        have hle := (headerScanner_suffix hb).length_le
        have hn : g.parser.bytesTotalRead + ((g.unread ++ b).length - rest.length) =
            g.parser.bytesTotalRead + g.unread.length + (b.length - rest.length) := by
          rw [List.length_append]
          omega
        refine ⟨rfl, Same.agree ?_ _⟩
        refine ⟨?_, rfl, rfl, rfl⟩
        dsimp only [forgetLast]
        rw [hn]

/-- The two ways to read `a ++ b` have come to the same point. -/
def Resumed (r r' : Progress × Nat × Except Exn Tribool) : Prop :=
  r.2.2 = r'.2.2 ∧ Agree r.2.2 r.1 r'.1

/-- A pass over a buffer, seen with `b` behind it: the pass does the same, or it waits
for more and the next pass completes it. -/
def PassSplits (x : Externals) (hook : Hook) (g : Progress) (t : Nat) (b : Bytes) : Prop :=
  let r := parseSwitch x hook g t
  parseSwitch x hook (push g b) t = (push r.1 b, r.2) ∨
    r.2.2 = .ok .indeterminate ∧ r.1.unread = [] ∧
      ∀ t', Resumed (parseSwitch x hook (push g b) t) (parseSwitch x hook (setReadBuffer r.1 b) t')

theorem parseSwitch_headerPhase {g : Progress}
    (h : g.parser.messageParseState = .headers ∨ g.parser.messageParseState = .footers) (t : Nat) :
    parseSwitch x hook g t = parseHeadersCase x hook g t := by
  rcases h with h | h
  · exact parseSwitch_headers h t
  · exact parseSwitch_footers h t

theorem parseSwitch_headers_splits (x : Externals) (hook : Hook) {g : Progress}
    (hst : g.parser.messageParseState = .headers ∨ g.parser.messageParseState = .footers)
    (t : Nat) (b : Bytes) : PassSplits x hook g t b := by
  obtain ⟨_, _, hs, hu⟩ := parseHeaders_keeps (x := x) g
  have hstb : (push g b).parser.messageParseState = .headers ∨
      (push g b).parser.messageParseState = .footers := hst
  by_cases hi : (parseHeaders x g).2 = .indeterminate
  · have hcase : parseSwitch x hook g t =
        ((parseHeaders x g).1, t + (parseHeaders x g).1.parser.bytesLastRead, .ok .indeterminate) := by
      rw [parseSwitch_headerPhase hst]
      unfold parseHeadersCase
      dsimp only
      rw [if_neg (fun h => by rw [hi] at h; cases h.1), hi]
    refine Or.inr ⟨by rw [hcase], by rw [hcase]; exact hu hi, ?_⟩
    intro t'
    have hst1 : (setReadBuffer (parseHeaders x g).1 b).parser.messageParseState = .headers ∨
        (setReadBuffer (parseHeaders x g).1 b).parser.messageParseState = .footers := by
      rw [show (setReadBuffer (parseHeaders x g).1 b).parser.messageParseState = _ from hs]
      exact hst
    rw [hcase, parseSwitch_headerPhase hstb, parseSwitch_headerPhase hst1]
    obtain ⟨h2, hagree⟩ := parseHeaders_resume b hi
    unfold parseHeadersCase
    dsimp only
    rw [← h2]
    -- `finishHeaderParsing` runs in both or in neither
    by_cases hfin : (parseHeaders x (push g b)).2 = .true ∧
        (parseHeaders x (push g b)).1.parser.messageParseState = .headers
    · have hsame := hagree.same (by rw [hfin.1]; intro h; cases h)
      have hph := congrArg HttpParser.messageParseState hsame.parser
      rw [if_pos hfin, if_pos ⟨hfin.1, hph ▸ hfin.2⟩]
      obtain ⟨hf, hrc⟩ := finishHeaderParsing_same x hook hsame
      exact ⟨hrc, hf.agree _⟩
    · have hph := congrArg HttpParser.messageParseState hagree.parser
      rw [if_neg hfin, if_neg (fun h => hfin ⟨h.1, hph.trans h.2⟩)]
      exact ⟨rfl, hagree⟩
  · refine Or.inl ?_
    rw [parseSwitch_headerPhase hst, parseSwitch_headerPhase hstb]
    unfold parseHeadersCase
    rw [parseHeaders_push b hi]
    dsimp only
    rw [show (push (parseHeaders x g).1 b).parser = (parseHeaders x g).1.parser from rfl]
    split
    · rw [finishHeaderParsing_push]
    · rfl

/-! ## The chunk phase splits -/

theorem chunkScanner_append {s : ChunkState} (hs : Calm s.1) (a b : Bytes) :
    chunkScanner.run s (a ++ b) = (chunkScanner.run s a).andThen chunkScanner.run b :=
  chunkScanner.run_append chunkScanner_splits a b s hs

theorem parseChunks_push {g : Progress} (hg : Calm g.parser.toChunkFields) (b : Bytes)
    (h : (parseChunks g).2 ≠ some .indeterminate) :
    parseChunks (push g b) = (push (parseChunks g).1 b, (parseChunks g).2) := by
  unfold parseChunks at h ⊢
  dsimp only [push] at h ⊢
  rw [chunkScanner_append hg]
  cases hr : chunkScanner.run (g.parser.toChunkFields, g.msg.chunkCache) g.unread with
  | more s => rw [hr] at h; exact absurd rfl h
  | stop r s rest =>
    cases r with
    | done | footers =>
      dsimp only [Outcome.andThen]
      rw [List.length_append, List.length_append, Nat.add_sub_add_right]
    | error e => rfl
    | threw => rfl

theorem parseChunks_resume {g : Progress} (hg : Calm g.parser.toChunkFields) (b : Bytes)
    (h : (parseChunks g).2 = some .indeterminate) :
    (parseChunks (push g b)).2 = (parseChunks (setReadBuffer (parseChunks g).1 b)).2 ∧
      Agree (.ok ((parseChunks (push g b)).2.getD .false)) (parseChunks (push g b)).1
        (parseChunks (setReadBuffer (parseChunks g).1 b)).1 := by
  unfold parseChunks at h ⊢
  dsimp only [push] at h ⊢
  rw [chunkScanner_append hg]
  cases hr : chunkScanner.run (g.parser.toChunkFields, g.msg.chunkCache) g.unread with
  | stop r s rest => rw [hr] at h; cases r <;> cases h
  | more s =>
    dsimp only [setReadBuffer, Outcome.andThen, HttpParser.accountContent]
    cases hb : chunkScanner.run (s.1, s.2) b with
    | more s' =>
      have hn : ∀ n, n + (g.unread ++ b).length = n + g.unread.length + b.length := by
        intro n
        rw [List.length_append, Nat.add_assoc]
      refine ⟨rfl, Same.agree ?_ _⟩
      refine ⟨?_, rfl, rfl, rfl⟩
      dsimp only [forgetLast]
      rw [hn, hn]
    | stop r s' rest =>
      have hle := (chunkScanner_suffix hb).length_le
      have hn : ∀ n, n + ((g.unread ++ b).length - rest.length) =
          n + g.unread.length + (b.length - rest.length) := by
        intro n
        rw [List.length_append]
        omega
      cases r with
      | done | footers =>
        refine ⟨rfl, Same.agree ?_ _⟩
        refine ⟨?_, rfl, rfl, rfl⟩
        dsimp only [forgetLast]
        rw [hn, hn]
      | error e => exact ⟨rfl, rfl, fun hne => absurd rfl hne, rfl, rfl, rfl⟩
      | threw => exact ⟨rfl, rfl, fun hne => absurd rfl hne, rfl, rfl, rfl⟩

/-- What `parse` does with the chunk cache does not depend on the counters either. -/
theorem Same.setMsg {g g' : Progress} (h : Same g g') (f : HttpRequest → HttpRequest) :
    Same { g with msg := f g.msg } { g' with msg := f g'.msg } :=
  ⟨h.parser, congrArg f h.msg, h.ec, h.unread⟩

theorem parseSwitch_chunks_splits {g : Progress} (hg : Calm g.parser.toChunkFields)
    (hst : g.parser.messageParseState = .chunks) (t : Nat) (b : Bytes) :
    PassSplits x hook g t b := by
  obtain ⟨_, _, hu, hs⟩ := parseChunks_keeps g
  have hstb : (push g b).parser.messageParseState = .chunks := hst
  by_cases hi : (parseChunks g).2 = some .indeterminate
  · have hcase : parseSwitch x hook g t =
        ((parseChunks g).1, t + (parseChunks g).1.parser.bytesLastRead, .ok .indeterminate) := by
      rw [parseSwitch_chunks hst]
      unfold parseChunksCase
      dsimp only
      rw [hi]
      rfl
    refine Or.inr ⟨by rw [hcase], by rw [hcase]; exact hu hi, ?_⟩
    intro t'
    rw [hcase, parseSwitch_chunks hstb, parseSwitch_chunks (by exact (hs hi).trans hst)]
    obtain ⟨h2, hagree⟩ := parseChunks_resume hg b hi
    unfold parseChunksCase
    dsimp only
    rw [← h2]
    cases hrc : (parseChunks (push g b)).2 with
    | none => rw [hrc] at hagree; exact ⟨rfl, hagree⟩
    | some rc =>
      rw [hrc] at hagree
      have hph := congrArg HttpParser.messageParseState hagree.parser
      have hpay := congrArg (fun q : HttpParser => q.payloadHandler) hagree.parser
      dsimp only [uncount] at hph hpay
      dsimp only
      rw [← hph, ← hpay]
      -- the chunks are put together in both or in neither
      by_cases hdone : rc = .true ∧ (parseChunks (push g b)).1.parser.payloadHandler.isNone
      · rw [if_pos hdone, if_pos hdone]
        have hsame := hagree.same (by rw [hdone.1]; intro h; cases h)
        exact ⟨rfl, (hsame.setMsg fun m => { m with toHttpMessage := m.concatenateChunks }).agree _⟩
      · rw [if_neg hdone, if_neg hdone]
        exact ⟨rfl, hagree⟩
  · refine Or.inl ?_
    rw [parseSwitch_chunks hst, parseSwitch_chunks hstb]
    unfold parseChunksCase
    rw [parseChunks_push hg b hi]
    dsimp only
    rw [show (push (parseChunks g).1 b).parser = (parseChunks g).1.parser from rfl]
    split
    · rfl
    · split
      · rfl
      · rfl

/-! ## The content phases split -/

theorem copyToContent_nil (m : HttpMessage) (o : Nat) : m.copyToContent o [] = m := by
  unfold HttpMessage.copyToContent
  simp

/-- Copying in two parts is copying at once. -/
theorem copyToContent_append (m : HttpMessage) (o : Nat) (u v : Bytes) :
    (m.copyToContent o u).copyToContent (o + u.length) v = m.copyToContent o (u ++ v) := by
  unfold HttpMessage.copyToContent
  dsimp only
  have hlist : (m.contentBuf.take o ++ u ++ m.contentBuf.drop (o + u.length)).take (o + u.length) ++
      v ++ (m.contentBuf.take o ++ u ++ m.contentBuf.drop (o + u.length)).drop
        (o + u.length + v.length) =
      m.contentBuf.take o ++ (u ++ v) ++ m.contentBuf.drop (o + (u ++ v).length) := by
    rcases Nat.le_total o m.contentBuf.length with hle | hle
    · have hlen : (m.contentBuf.take o ++ u).length = o + u.length := by
        rw [List.length_append, List.length_take_of_le hle]
      rw [← hlen, List.take_left, List.drop_length_add_append, hlen, List.drop_drop,
        List.length_append, Nat.add_assoc, List.append_assoc (m.contentBuf.take o)]
    · -- the buffer ends in front of the data
      have hd : ∀ k, m.contentBuf.drop (o + k) = [] := fun k =>
        List.drop_eq_nil_of_le (Nat.le_trans hle (Nat.le_add_right o k))
      have hlen : (m.contentBuf ++ u).length ≤ o + u.length := by
        rw [List.length_append]
        omega
      rw [hd, hd, List.append_nil, List.append_nil, List.take_of_length_le hle,
        List.take_of_length_le hlen, List.drop_eq_nil_of_le (Nat.le_trans hlen (by omega)),
        List.append_nil, List.append_assoc]
  rw [hlist]

/-- The limit cuts off the tail of the data. -/
theorem storeContent_eq (p : HttpParser) (m : HttpRequest) (data : Bytes) :
    storeContent p m data =
      { m with
        toHttpMessage := m.copyToContent p.bytesContentRead
          (data.take (p.maxContentLength - p.bytesContentRead)) } := by
  unfold storeContent
  dsimp only
  split
  · split
    · rfl
    · rename_i h
      rw [List.take_of_length_le (by omega)]
  · rename_i h
    rw [Nat.sub_eq_zero_of_le (by omega), List.take_zero, copyToContent_nil]

theorem storeContent_append (p : HttpParser) (m : HttpRequest) (u v : Bytes) :
    storeContent (p.accountContent u.length) (storeContent p m u) v = storeContent p m (u ++ v) := by
  rw [storeContent_eq, storeContent_eq, storeContent_eq]
  dsimp only [HttpParser.accountContent]
  rw [List.take_append]
  rcases Nat.le_total u.length (p.maxContentLength - p.bytesContentRead) with hle | hle
  · rw [List.take_of_length_le hle, copyToContent_append, Nat.sub_sub]
  · rw [show p.maxContentLength - (p.bytesContentRead + u.length) = 0 by omega,
      show p.maxContentLength - p.bytesContentRead - u.length = 0 by omega, List.take_zero,
      copyToContent_nil, List.append_nil]

/-- Take `data` off the front of the buffer as content. -/
def takeContent (g : Progress) (data : Bytes) : Progress :=
  let p := { g.parser with bytesContentRemaining := g.parser.bytesContentRemaining - data.length }
  let rest := g.unread.drop data.length
  if g.parser.payloadHandler.isSome then
    { g with parser := { p with delivered := p.delivered ++ data }.accountContent data.length,
             unread := rest }
  else { g with parser := p.accountContent data.length, msg := storeContent p g.msg data,
                unread := rest }

theorem takeContent_handler {g : Progress} {data : Bytes}
    (h : g.parser.payloadHandler.isSome = true) :
    takeContent g data =
      { g with
        parser := { g.parser with
          bytesContentRemaining := g.parser.bytesContentRemaining - data.length
          delivered := g.parser.delivered ++ data }.accountContent data.length
        unread := g.unread.drop data.length } := if_pos h

theorem takeContent_cache {g : Progress} {data : Bytes}
    (h : ¬ g.parser.payloadHandler.isSome = true) :
    takeContent g data =
      { g with
        parser := { g.parser with
          bytesContentRemaining := g.parser.bytesContentRemaining - data.length
          }.accountContent data.length
        msg := storeContent g.parser g.msg data
        unread := g.unread.drop data.length } := if_neg h

/-- `consume_content` takes what there is, as far as it belongs to the body. -/
theorem consumeContent_eq {g : Progress} (hg : Calm g.parser.toChunkFields)
    (h : g.parser.bytesContentRemaining ≠ 0) :
    consumeContent g = (takeContent g (g.unread.take g.parser.bytesContentRemaining),
      some (if g.unread.length ≥ g.parser.bytesContentRemaining then .true else .indeterminate)) := by
  have hdata : g.unread.take (min g.unread.length g.parser.bytesContentRemaining) =
      g.unread.take g.parser.bytesContentRemaining := by
    rw [Nat.min_comm]
    exact List.take_eq_take_min.symm
  have hlen : (g.unread.take g.parser.bytesContentRemaining).length =
      min g.unread.length g.parser.bytesContentRemaining := by
    rw [List.length_take, Nat.min_comm]
  unfold consumeContent takeContent
  dsimp only
  rw [if_neg h, hdata, hlen]
  split
  · rename_i k hk
    have hsome : g.parser.payloadHandler.isSome = true := by rw [hk]; rfl
    rw [deliver_noThrow (hg k hk), if_pos hsome]
  · rename_i hk
    have hnone : ¬ g.parser.payloadHandler.isSome = true := by rw [hk]; exact Bool.false_ne_true
    rw [if_neg hnone]

theorem takeContent_append {g : Progress} {u : Bytes} (hu : g.unread = u) (v b : Bytes) :
    Same (takeContent (push g b) (u ++ v)) (takeContent (setReadBuffer (takeContent g u) b) v) := by
  have hrest : (g.unread ++ b).drop (u ++ v).length = b.drop v.length := by
    rw [hu, List.length_append, List.drop_length_add_append]
  have hleft : g.parser.bytesContentRemaining - (u ++ v).length =
      g.parser.bytesContentRemaining - u.length - v.length := by
    rw [List.length_append, Nat.sub_sub]
  have hsum : ∀ n, n + (u ++ v).length = n + u.length + v.length := by
    intro n
    rw [List.length_append, Nat.add_assoc]
  by_cases hk : g.parser.payloadHandler.isSome
  · rw [takeContent_handler hk, takeContent_handler (g := push g b) hk]
    rw [takeContent_handler (by exact hk)]
    dsimp only [push, setReadBuffer]
    refine ⟨?_, rfl, rfl, hrest⟩
    dsimp only [forgetLast, HttpParser.accountContent]
    rw [hleft, hsum, hsum, List.append_assoc]
  · rw [takeContent_cache hk, takeContent_cache (g := push g b) hk]
    rw [takeContent_cache (by exact hk)]
    dsimp only [push, setReadBuffer]
    refine ⟨?_, (storeContent_append _ g.msg u v).symm, rfl, hrest⟩
    dsimp only [forgetLast, HttpParser.accountContent]
    rw [hleft, hsum, hsum]

theorem takeContent_push {g : Progress} {data : Bytes} (b : Bytes)
    (h : data.length ≤ g.unread.length) :
    takeContent (push g b) data = push (takeContent g data) b := by
  by_cases hk : g.parser.payloadHandler.isSome
  · rw [takeContent_handler hk, takeContent_handler (g := push g b) hk]
    dsimp only [push]
    rw [List.drop_append_of_le_length h]
  · rw [takeContent_cache hk, takeContent_cache (g := push g b) hk]
    dsimp only [push]
    rw [List.drop_append_of_le_length h]

theorem consumeContent_push {g : Progress} (hg : Calm g.parser.toChunkFields) (b : Bytes)
    (h : g.parser.bytesContentRemaining ≤ g.unread.length) :
    consumeContent (push g b) = (push (consumeContent g).1 b, (consumeContent g).2) := by
  by_cases hz : g.parser.bytesContentRemaining = 0
  · unfold consumeContent
    dsimp only [push]
    rw [if_pos hz, if_pos hz]
  · have hz' : (push g b).parser.bytesContentRemaining ≠ 0 := hz
    rw [consumeContent_eq hg hz, consumeContent_eq (g := push g b) hg hz']
    have hlen : (push g b).unread.length ≥ (push g b).parser.bytesContentRemaining := by
      show (g.unread ++ b).length ≥ g.parser.bytesContentRemaining
      rw [List.length_append]
      omega
    have htake : (push g b).unread.take (push g b).parser.bytesContentRemaining =
        g.unread.take g.parser.bytesContentRemaining := List.take_append_of_le_length h
    rw [if_pos hlen, if_pos h, htake, takeContent_push b (by rw [List.length_take]; omega)]

/-- A body that reaches beyond the buffer is completed from the next one. -/
theorem consumeContent_resume {g : Progress} (hg : Calm g.parser.toChunkFields) (b : Bytes)
    (h : g.unread.length < g.parser.bytesContentRemaining) :
    (consumeContent g).2 = some .indeterminate ∧
      (consumeContent (push g b)).2 = (consumeContent (setReadBuffer (consumeContent g).1 b)).2 ∧
      Same (consumeContent (push g b)).1 (consumeContent (setReadBuffer (consumeContent g).1 b)).1 := by
  have hz : g.parser.bytesContentRemaining ≠ 0 := by omega
  have hz₁ : (push g b).parser.bytesContentRemaining ≠ 0 := hz
  have hfull : g.unread.take g.parser.bytesContentRemaining = g.unread :=
    List.take_of_length_le (Nat.le_of_lt h)
  rw [consumeContent_eq hg hz, consumeContent_eq (g := push g b) hg hz₁, hfull,
    if_neg (Nat.not_le_of_lt h)]
  have hp : (setReadBuffer (takeContent g g.unread) b).parser.bytesContentRemaining =
      g.parser.bytesContentRemaining - g.unread.length := by
    unfold takeContent setReadBuffer
    dsimp only
    split
    · rfl
    · rfl
  have hcalm : Calm (setReadBuffer (takeContent g g.unread) b).parser.toChunkFields := by
    have hk := (consumeContent_keeps g).2.1
    rw [consumeContent_eq hg hz, hfull] at hk
    exact hk.calm hg
  rw [consumeContent_eq hcalm (by rw [hp]; omega), hp]
  -- the second buffer is given what the first one has not filled
  have htake : (push g b).unread.take (push g b).parser.bytesContentRemaining =
      g.unread ++ b.take (g.parser.bytesContentRemaining - g.unread.length) := by
    show (g.unread ++ b).take g.parser.bytesContentRemaining = _
    rw [List.take_append, hfull]
  refine ⟨rfl, ?_, ?_⟩
  · show some (if (g.unread ++ b).length ≥ g.parser.bytesContentRemaining then _ else _) =
      some (if b.length ≥ _ then _ else _)
    rw [List.length_append]
    by_cases hle : b.length ≥ g.parser.bytesContentRemaining - g.unread.length
    · rw [if_pos hle, if_pos (by omega)]
    · rw [if_neg hle, if_neg (by omega)]
  · rw [htake]
    exact takeContent_append rfl _ b

theorem consumeContent_state (g : Progress) :
    (consumeContent g).1.parser.messageParseState = g.parser.messageParseState := by
  unfold consumeContent
  dsimp only
  split
  · rfl
  · split
    · split
      · rfl
      · rfl
    · rfl

theorem parseSwitch_content_splits {g : Progress} (hg : Calm g.parser.toChunkFields)
    (hst : g.parser.messageParseState = .content) (t : Nat) (b : Bytes) :
    PassSplits x hook g t b := by
  have hstb : (push g b).parser.messageParseState = .content := hst
  rcases Nat.lt_or_ge g.unread.length g.parser.bytesContentRemaining with hlt | hge
  · obtain ⟨hi, hrc, hsame⟩ := consumeContent_resume hg b hlt
    have hg1 : parseSwitch x hook g t =
        ((consumeContent g).1, t + (consumeContent g).1.parser.bytesLastRead, .ok .indeterminate) := by
      rw [parseSwitch_content hst, hi]
    refine Or.inr ⟨by rw [hg1], by rw [hg1]; exact (consumeContent_keeps g).2.2 hi, ?_⟩
    intro t'
    rw [hg1, parseSwitch_content hstb,
      parseSwitch_content (by exact (consumeContent_state g).trans hst), ← hrc]
    cases (consumeContent (push g b)).2 with
    | none => exact ⟨rfl, hsame.agree _⟩
    | some rc => exact ⟨rfl, hsame.agree _⟩
  · refine Or.inl ?_
    rw [parseSwitch_content hst, parseSwitch_content hstb, consumeContent_push hg b hge]
    dsimp only
    cases (consumeContent g).2 with
    | none => rfl
    | some rc => rfl

theorem consumeContentAsNextChunk_resume {g : Progress} (hg : Calm g.parser.toChunkFields)
    (hne : g.unread ≠ []) {b : Bytes} (hb : b ≠ []) :
    (consumeContentAsNextChunk g).2 = some () ∧
      (consumeContentAsNextChunk (push g b)).2 = some () ∧
      (consumeContentAsNextChunk (setReadBuffer (consumeContentAsNextChunk g).1 b)).2 = some () ∧
      (consumeContentAsNextChunk g).1.parser.messageParseState = g.parser.messageParseState ∧
      Same (consumeContentAsNextChunk (push g b)).1
        (consumeContentAsNextChunk (setReadBuffer (consumeContentAsNextChunk g).1 b)).1 := by
  have hn : g.unread.length ≠ 0 := fun h => hne (List.eq_nil_of_length_eq_zero h)
  have hb' : b.length ≠ 0 := fun h => hb (List.eq_nil_of_length_eq_zero h)
  have hnb : (g.unread ++ b).length ≠ 0 := by
    rw [List.length_append]
    omega
  have hsum : ∀ n, n + (g.unread ++ b).length = n + g.unread.length + b.length := by
    intro n
    rw [List.length_append, Nat.add_assoc]
  unfold consumeContentAsNextChunk
  dsimp only [push, setReadBuffer]
  rw [if_neg hn, if_neg hnb]
  cases hh : g.parser.payloadHandler with
  | some k =>
    have hk := hg k hh
    dsimp only
    rw [deliver_noThrow hk, deliver_noThrow hk]
    dsimp only [HttpParser.accountContent]
    rw [if_neg hb', hh]
    dsimp only
    rw [deliver_noThrow hk]
    refine ⟨rfl, rfl, rfl, rfl, ?_⟩
    refine ⟨?_, rfl, rfl, rfl⟩
    dsimp only [forgetLast]
    rw [hsum, hsum, List.append_assoc]
  | none =>
    dsimp only [HttpParser.accountContent]
    rw [if_neg hb', hh]
    refine ⟨rfl, rfl, rfl, rfl, ?_⟩
    refine ⟨?_, ?_, rfl, rfl⟩
    · dsimp only [forgetLast]
      rw [hsum, hsum]
    · dsimp only
      rw [List.take_append, List.length_append, List.length_take, List.append_assoc]
      congr 3
      rw [show g.parser.maxContentLength - g.msg.chunkCache.length - g.unread.length =
        g.parser.maxContentLength - (g.msg.chunkCache.length +
          min (g.parser.maxContentLength - g.msg.chunkCache.length) g.unread.length) by omega]

theorem parseSwitch_contentNoLength_splits {g : Progress} (hg : Calm g.parser.toChunkFields)
    (hst : g.parser.messageParseState = .contentNoLength) (hne : g.unread ≠ []) (t : Nat)
    {b : Bytes} (hb : b ≠ []) : PassSplits x hook g t b := by
  obtain ⟨h1, h2, h3, hs, hsame⟩ := consumeContentAsNextChunk_resume hg hne hb
  have hg1 : parseSwitch x hook g t = ((consumeContentAsNextChunk g).1,
      t + (consumeContentAsNextChunk g).1.parser.bytesLastRead, .ok .indeterminate) := by
    rw [parseSwitch_contentNoLength hst, h1]
  refine Or.inr ⟨by rw [hg1], by rw [hg1]; exact (consumeContentAsNextChunk_keeps g).2.2 h1, ?_⟩
  intro t'
  rw [hg1, parseSwitch_contentNoLength (g := push g b) hst,
    parseSwitch_contentNoLength (by exact hs.trans hst), h2, h3]
  exact ⟨rfl, hsame.agree _⟩

/-! ## One pass splits -/

theorem parseSwitch_splits (x : Externals) (hook : Hook) {g : Progress} (hg : Calm g.parser.toChunkFields) (hne : g.unread ≠ [])
    (t : Nat) {b : Bytes} (hb : b ≠ []) : PassSplits x hook g t b := by
  cases hst : g.parser.messageParseState with
  | start =>
    -- the same as starting in the header phase
    have h := parseSwitch_headers_splits x hook
      (g := { g with parser := { g.parser with messageParseState := .headers } }) (Or.inl rfl) t b
    unfold PassSplits at h ⊢
    rw [parseSwitch_headers rfl, parseSwitch_headers rfl] at h
    rw [parseSwitch_start hst, parseSwitch_start (g := push g b) hst]
    exact h
  | headers => exact parseSwitch_headers_splits x hook (Or.inl hst) t b
  | footers => exact parseSwitch_headers_splits x hook (Or.inr hst) t b
  | chunks => exact parseSwitch_chunks_splits hg hst t b
  | content => exact parseSwitch_content_splits hg hst t b
  | contentNoLength => exact parseSwitch_contentNoLength_splits hg hst hne t hb
  | «end» =>
    refine Or.inl ?_
    rw [parseSwitch_end hst, parseSwitch_end (g := push g b) hst]

/-! ## The loop splits -/

/-- Passes that came to the same point lead the loop to the same point. -/
theorem parseLoop_resumed (k : Nat) {g g' : Progress} {t t' : Nat}
    (h : Resumed (parseSwitch x hook g t) (parseSwitch x hook g' t')) :
    Resumed (parseLoop x hook (k + 1) g t) (parseLoop x hook (k + 1) g' t') := by
  rw [parseLoop, parseLoop]
  rcases hr : parseSwitch x hook g t with ⟨u, s, rc⟩
  rcases hr' : parseSwitch x hook g' t' with ⟨u', s', rc'⟩
  rw [hr, hr'] at h
  obtain ⟨hrc, hagree⟩ : rc = rc' ∧ Agree rc u u' := h
  subst hrc
  rcases rc with e | v
  · exact ⟨rfl, hagree⟩
  cases v with
  | true => exact ⟨rfl, hagree⟩
  | false => exact ⟨rfl, hagree⟩
  | indeterminate =>
    have hsame := hagree.same (fun h => by cases h)
    dsimp only
    rw [← hagree.unread]
    split
    · exact ⟨rfl, hagree⟩
    · obtain ⟨h1, h2⟩ := parseLoop_same x hook k hsame s s'
      exact ⟨h2, h1.agree _⟩

/-- **The loop does not see where its buffer ends.** -/
theorem parseLoop_splits (hh : CalmHook hook) {b : Bytes} (hb : b ≠ []) :
    ∀ (k : Nat) (g : Progress) (t : Nat), passes g.parser.messageParseState ≤ k → k ≤ 3 →
      Calm g.parser.toChunkFields → g.unread ≠ [] →
      let r := parseLoop x hook k g t
      (r.2.2 ≠ .ok .indeterminate ∧ parseLoop x hook k (push g b) t = (push r.1 b, r.2)) ∨
        (r.2.2 = .ok .indeterminate ∧
          ∀ t', Resumed (parseLoop x hook k (push g b) t) (parseLoop x hook 3 (setReadBuffer r.1 b) t')) := by
  intro k
  induction k with
  | zero =>
    intro g t h
    have := passes_pos g.parser.messageParseState
    omega
  | succ k ih =>
    intro g t hk hk3 hg hne
    have hspec := parseSwitch_spec x hook g t
    have hspecb := parseSwitch_spec x hook (push g b) t
    rcases parseSwitch_splits x hook hg hne t hb with hA | ⟨hi, hu, hB⟩
    · -- the pass did not come to the end of the buffer
      rw [hA] at hspecb
      rw [parseLoop, parseLoop, hA]
      rcases hr : parseSwitch x hook g t with ⟨g1, t1, rc⟩
      rw [hr] at hspec hspecb
      rcases rc with e | v
      · exact Or.inl ⟨fun h => (by cases h), rfl⟩
      cases v with
      | true => exact Or.inl ⟨fun h => (by cases h), rfl⟩
      | false => exact Or.inl ⟨fun h => (by cases h), rfl⟩
      | indeterminate =>
        have hlt : passes g1.parser.messageParseState < passes g.parser.messageParseState :=
          hspecb.order rfl (fun h => hb (List.append_eq_nil_iff.mp h).2)
        have hmore : (push g1 b).unread ≠ [] := fun h => hb (List.append_eq_nil_iff.mp h).2
        dsimp only
        rw [if_neg hmore]
        by_cases hu : g1.unread = []
        · -- the headers ended with the buffer
          rw [if_pos hu]
          refine Or.inr ⟨rfl, fun t' => ?_⟩
          have hsame : Same (push g1 b) (setReadBuffer g1 b) :=
            ⟨rfl, rfl, rfl, by show g1.unread ++ b = b; rw [hu, List.nil_append]⟩
          have hpass : passes (push g1 b).parser.messageParseState ≤ k := by
            show passes g1.parser.messageParseState ≤ k
            omega
          rw [parseLoop_stable k 3 (push g1 b) t1 hpass (by omega)]
          obtain ⟨h1, h2⟩ := parseLoop_same x hook 3 hsame t1 t'
          exact ⟨h2, h1.agree _⟩
        · rw [if_neg hu]
          exact ih g1 t1 (by omega) (by omega) (hspec.calm hh hg) hu
    · -- the pass waits, and the next one completes it
      have hk3 : parseLoop x hook (k + 1) (push g b) t = parseLoop x hook 3 (push g b) t :=
        parseLoop_stable (k + 1) 3 (push g b) t hk (Nat.le_trans hk hk3)
      rw [hk3, parseLoop]
      rcases hr : parseSwitch x hook g t with ⟨g1, t1, rc⟩
      rw [hr] at hi hu hB
      dsimp only at hi hu hB
      subst hi
      dsimp only
      rw [if_pos hu]
      refine Or.inr ⟨rfl, fun t' => ?_⟩
      exact parseLoop_resumed 2 (hB t')

/-! ## The parse splits -/

/-- Two results that differ in the parser's byte counters only. -/
structure SameResult (r r' : ParseResult) : Prop where
  rc : r.rc = r'.rc
  ec : r.ec = r'.ec
  msg : r.msg = r'.msg
  unread : r.unread = r'.unread
  parser : uncount r.parser = uncount r'.parser

theorem SameResult.refl (r : ParseResult) : SameResult r r := ⟨rfl, rfl, rfl, rfl, rfl⟩

theorem SameResult.symm {r r' : ParseResult} (h : SameResult r r') : SameResult r' r :=
  ⟨h.rc.symm, h.ec.symm, h.msg.symm, h.unread.symm, h.parser.symm⟩

theorem SameResult.trans {r₁ r₂ r₃ : ParseResult} (h : SameResult r₁ r₂) (h' : SameResult r₂ r₃) :
    SameResult r₁ r₃ :=
  ⟨h.rc.trans h'.rc, h.ec.trans h'.ec, h.msg.trans h'.msg, h.unread.trans h'.unread,
    h.parser.trans h'.parser⟩

/-- In particular, the payload handler was given the same bytes. -/
theorem SameResult.delivered {r r' : ParseResult} (h : SameResult r r') :
    r.parser.delivered = r'.parser.delivered := by
  have hd := congrArg (fun p : HttpParser => p.delivered) h.parser
  exact hd

theorem finish_last (p : HttpParser) (m : HttpRequest) (n : Nat) :
    finish x { p with bytesLastRead := n } m = finish x p m := rfl

/-- The end of `parse` does not look at the counters, except at `m_bytes_content_read`
of a parse that has not failed. -/
theorem parseEnd_agree {rc : Except Exn Tribool} {g g' : Progress} (h : Agree rc g g') (t t' : Nat) :
    SameResult (parseEnd x g t rc) (parseEnd x g' t' rc) := by
  rcases rc with e | v
  · exact ⟨rfl, h.ec, h.msg, h.unread, h.parser⟩
  cases v with
  | false => exact ⟨rfl, h.ec, congrArg (computeMsgStatus · false) h.msg, h.unread, h.parser⟩
  | indeterminate => exact ⟨rfl, h.ec, h.msg, h.unread, h.parser⟩
  | true =>
    obtain ⟨n, rfl⟩ := (h.same (fun h => by cases h)).exists_last
    unfold parseEnd
    dsimp only
    rw [finish_last { g.parser with messageParseState := .end } g.msg n]
    rcases finish x { g.parser with messageParseState := .end } g.msg with ⟨m, e⟩
    cases e with
    | none => exact ⟨rfl, rfl, rfl, rfl, rfl⟩
    | some e => exact ⟨rfl, rfl, rfl, rfl, rfl⟩

theorem parseEnd_resumed {r r' : Progress × Nat × Except Exn Tribool} (h : Resumed r r') :
    SameResult (parseEnd x r.1 r.2.1 r.2.2) (parseEnd x r'.1 r'.2.1 r'.2.2) := by
  rw [← h.1]
  exact parseEnd_agree h.2 _ _

theorem parseEnd_push (g : Progress) (b : Bytes) (t : Nat) (rc : Except Exn Tribool) :
    parseEnd x (push g b) t rc =
      { parseEnd x g t rc with unread := (parseEnd x g t rc).unread ++ b } := by
  rcases rc with e | v
  · rfl
  cases v with
  | false => rfl
  | indeterminate => rfl
  | true =>
    unfold parseEnd push
    dsimp only
    rcases finish x { g.parser with messageParseState := .end } g.msg with ⟨m, e⟩
    cases e <;> rfl

theorem parseLoop_keeps (hh : CalmHook hook) : ∀ (k : Nat) (g : Progress) (t : Nat),
    Calm g.parser.toChunkFields →
    missing (parseLoop x hook k g t).1.msg = missing g.msg ∧
      Calm (parseLoop x hook k g t).1.parser.toChunkFields := by
  intro k g t hg
  refine parseLoop_invariant (Q := fun g' _ _ =>
    missing g'.msg = missing g.msg ∧ Calm g'.parser.toChunkFields) ?_ k g t ⟨rfl, hg⟩
  intro g' t' h
  have hspec := parseSwitch_spec x hook g' t'
  exact ⟨hspec.missing_eq.trans h.1, hspec.calm hh h.2⟩

theorem noteMissingPackets_note {m m' : HttpRequest}
    (h : missing m' = missing (noteMissingPackets m)) : noteMissingPackets m' = m' := by
  obtain ⟨h1, h2⟩ := Prod.mk.inj h
  unfold noteMissingPackets at h1 h2 ⊢
  split
  · rename_i hm
    have hd : m'.hasDataAfterMissing = true := by
      by_cases hmm : m.hasMissingPackets
      · rw [h2, if_pos hmm]
      · rw [h1, if_neg hmm] at hm
        exact absurd hm hmm
    rw [← hd]
  · rfl

theorem parseEnd_chunkFields (g : Progress) (t : Nat) (rc : Except Exn Tribool) :
    (parseEnd x g t rc).parser.toChunkFields = g.parser.toChunkFields := by
  unfold parseEnd
  split
  · rfl
  · dsimp only
    split
    · rfl
    · rfl
  · rfl
  · rfl

theorem parseEnd_indeterminate {g : Progress} {t : Nat} {rc : Except Exn Tribool}
    (h : (parseEnd x g t rc).rc = .ok .indeterminate) : rc = .ok .indeterminate := by
  unfold parseEnd at h
  split at h
  · cases h
  · dsimp only at h
    split at h
    · cases h
    · cases h
  · cases h
  · rfl

/-- Where the loop of `parse` starts. -/
def opened (p : HttpParser) (m : HttpRequest) (ec : Option ErrorValue) (buf : Bytes) : Progress :=
  { parser := p, msg := noteMissingPackets m, ec := ec, unread := buf }

theorem parse_of_loop [Memory] {p : HttpParser} {m : HttpRequest} {ec : Option ErrorValue} {buf : Bytes}
    {g : Progress} {t : Nat} {rc : Except Exn Tribool}
    (h : parseLoop x hook 3 (opened p m ec buf) 0 = (g, t, rc)) :
    parse x hook p m ec buf = parseEnd x g t rc := by
  show parseEnd x (parseLoop x hook 3 (opened p m ec buf) 0).1
    (parseLoop x hook 3 (opened p m ec buf) 0).2.1 (parseLoop x hook 3 (opened p m ec buf) 0).2.2 = _
  rw [h]

theorem parse_calm (hh : CalmHook hook) {p : HttpParser} (hp : Calm p.toChunkFields)
    (m : HttpRequest) (ec : Option ErrorValue) (a : Bytes) :
    Calm (parse x hook p m ec a).parser.toChunkFields := by
  unfold parse
  dsimp only
  rw [parseEnd_chunkFields]
  exact (parseLoop_keeps hh 3 (opened p m ec a) 0 hp).2

theorem parse_split (hh : CalmHook hook) {p : HttpParser} (hp : Calm p.toChunkFields)
    (m : HttpRequest) (ec : Option ErrorValue) {a b : Bytes} (ha : a ≠ []) (hb : b ≠ []) :
    let r := parse x hook p m ec a
    (r.rc = .ok .indeterminate →
      SameResult (parse x hook p m ec (a ++ b)) (parse x hook r.parser r.msg r.ec b)) ∧
    (r.rc ≠ .ok .indeterminate → parse x hook p m ec (a ++ b) = { r with unread := r.unread ++ b }) := by
  have hsplit := parseLoop_splits (x := x) hh hb 3 (opened p m ec a) 0
    (by show passes p.messageParseState ≤ 3; cases p.messageParseState <;> decide)
    (Nat.le_refl 3) hp ha
  have hmiss := (parseLoop_keeps (x := x) hh 3 (opened p m ec a) 0 hp).1
  have hparse : ∀ q m ec buf, parse x hook q m ec buf =
      parseEnd x (parseLoop x hook 3 (opened q m ec buf) 0).1
        (parseLoop x hook 3 (opened q m ec buf) 0).2.1
        (parseLoop x hook 3 (opened q m ec buf) 0).2.2 := fun _ _ _ _ => rfl
  rw [hparse p m ec a, hparse p m ec (a ++ b),
    show opened p m ec (a ++ b) = push (opened p m ec a) b from rfl]
  rcases hr : parseLoop x hook 3 (opened p m ec a) 0 with ⟨g, t, rc⟩
  rw [hr] at hsplit hmiss
  dsimp only at hsplit hmiss ⊢
  constructor
  · intro h
    have hrc := parseEnd_indeterminate h
    subst hrc
    rcases hsplit with ⟨hne, _⟩ | ⟨_, hB⟩
    · exact absurd rfl hne
    -- the second parse starts where the loop of the first one stopped
    have hopen : opened { g.parser with bytesLastRead := t } g.msg g.ec b =
        { setReadBuffer g b with parser := { g.parser with bytesLastRead := t } } := by
      unfold opened setReadBuffer
      rw [noteMissingPackets_note hmiss]
    obtain ⟨hrc, hagree⟩ := hB 0
    obtain ⟨h1, h2⟩ := parseLoop_same x hook 3
      (same_last (setReadBuffer g b) t) 0 0
    have hres : Resumed (parseLoop x hook 3 (push (opened p m ec a) b) 0)
        (parseLoop x hook 3 (opened { g.parser with bytesLastRead := t } g.msg g.ec b) 0) := by
      rw [hopen]
      exact ⟨hrc.trans h2, hagree.trans_same h1⟩
    exact parseEnd_resumed hres
  · intro h
    rcases hsplit with ⟨_, hA⟩ | ⟨hi, _⟩
    · rw [hA]
      exact parseEnd_push g b t rc
    · subst hi
      exact absurd rfl h

/-- Parse buffers one after another until the parser has come to a result; what is left
of the buffers stays unread. -/
def feed [Memory] (x : Externals) (hook : Hook) : ParseResult → List Bytes → ParseResult
  | r, [] => r
  | r, b :: bs =>
    if r.rc = .ok .indeterminate then feed x hook (parse x hook r.parser r.msg r.ec b) bs
    else { r with unread := r.unread ++ (b :: bs).flatten }

/-- A parser between two calls that wait for more. -/
def waitingWith (p : HttpParser) (m : HttpRequest) (ec : Option ErrorValue) : ParseResult where
  parser := p
  msg := m
  ec := ec
  unread := []
  rc := .ok .indeterminate

theorem feed_append (hh : CalmHook hook) : ∀ (bs : List Bytes), (∀ b ∈ bs, b ≠ []) →
    ∀ (p : HttpParser) (m : HttpRequest) (ec : Option ErrorValue) (a : Bytes),
      Calm p.toChunkFields → a ≠ [] →
      SameResult (feed x hook (parse x hook p m ec a) bs) (parse x hook p m ec (a ++ bs.flatten)) := by
  intro bs
  induction bs with
  | nil =>
    intro _ p m ec a _ _
    rw [List.flatten_nil, List.append_nil]
    exact SameResult.refl _
  | cons b bs ih =>
    intro hbs p m ec a hp ha
    have hb : b ≠ [] := hbs b List.mem_cons_self
    have hflat : (b :: bs).flatten ≠ [] := by
      rw [List.flatten_cons]
      exact fun h => hb (List.append_eq_nil_iff.mp h).1
    -- split the stream behind `a`, with all the other buffers as the second half
    have hsplit := parse_split (x := x) hh hp m ec ha hflat
    rw [feed]
    split
    · rename_i hi
      have hrest := ih (fun c hc => hbs c (List.mem_cons_of_mem b hc))
        (parse x hook p m ec a).parser (parse x hook p m ec a).msg (parse x hook p m ec a).ec b
        (parse_calm hh hp m ec a) hb
      exact hrest.trans (hsplit.1 hi).symm
    · rename_i hi
      rw [hsplit.2 hi]
      exact SameResult.refl _

/-- **Where the read buffers end cannot be seen.** In any state of the parser, a buffer
that leaves it waiting may be followed by the next one or be one with it, and a buffer it
is finished with may have more bytes behind it. So any split of a stream into buffers
gives the same result, error, message, unread bytes and bytes for the payload handler. -/
theorem parse_append (hh : CalmHook hook) (p : HttpParser) (hp : Calm p.toChunkFields)
    (m : HttpRequest) (ec : Option ErrorValue) (a b : Bytes) (ha : a ≠ []) (hb : b ≠ []) :
    let r := parse x hook p m ec a
    (r.rc = .ok .indeterminate →
      SameResult (parse x hook r.parser r.msg r.ec b) (parse x hook p m ec (a ++ b))) ∧
    (r.rc ≠ .ok .indeterminate → parse x hook p m ec (a ++ b) = { r with unread := r.unread ++ b }) ∧
    (∀ bs : List Bytes, (∀ c ∈ bs, c ≠ []) →
      SameResult (feed x hook r bs) (parse x hook p m ec (a ++ bs.flatten))) := by
  obtain ⟨h1, h2⟩ := parse_split (x := x) hh hp m ec ha hb
  exact ⟨fun h => (h1 h).symm, h2, fun bs hbs => feed_append hh bs hbs p m ec a hp ha⟩

/-! ## A parser that waits has read everything -/

theorem parseLoop_waits (x : Externals) (hook : Hook) : ∀ (n : Nat) (g : Progress) (t : Nat),
    passes g.parser.messageParseState ≤ n → (parseLoop x hook n g t).2.2 = .ok .indeterminate →
    (parseLoop x hook n g t).1.unread = [] := by
  intro n
  induction n with
  | zero =>
    intro g t hn _
    have := passes_pos g.parser.messageParseState
    omega
  | succ n ih =>
    intro g t hn h
    have hspec := parseSwitch_spec x hook g t
    rw [parseLoop] at h ⊢
    rcases hr : parseSwitch x hook g t with ⟨g', t', rc⟩
    rw [hr] at h hspec
    rcases rc with e | b
    · cases h
    cases b with
    | true => cases h
    | false => cases h
    | indeterminate =>
      dsimp only at h ⊢
      by_cases hu : g'.unread = []
      · rw [if_pos hu]
        exact hu
      · rw [if_neg hu] at h ⊢
        have hlt : passes g'.parser.messageParseState < passes g.parser.messageParseState :=
          hspec.order rfl hu
        exact ih g' t' (by omega) h

theorem parse_waits_empty {p : HttpParser} {m : HttpRequest} {ec : Option ErrorValue}
    {buf : Bytes} (h : (parse x hook p m ec buf).rc = .ok .indeterminate) :
    (parse x hook p m ec buf).unread = [] := by
  have hpass : passes (opened p m ec buf).parser.messageParseState ≤ 3 := by
    show passes p.messageParseState ≤ 3
    cases p.messageParseState <;> decide
  have hwait := parseLoop_waits x hook 3 (opened p m ec buf) 0 hpass
  rcases hr : parseLoop x hook 3 (opened p m ec buf) 0 with ⟨g, t, rc⟩
  rw [parse_of_loop hr] at h ⊢
  rw [hr] at hwait
  obtain rfl := parseEnd_indeterminate h
  exact hwait rfl

theorem noHook_calm : CalmHook noHook := by
  intro m ec rc r h k hk
  injection h with h
  rw [← h] at hk
  cases hk

theorem fresh_calm (max i j : Nat) : Calm (HttpParser.fresh max i j).toChunkFields := calm_none rfl

theorem parse_append_get :
    let parseHere := parse plainExternals noHook (HttpParser.fresh 100 0 0) HttpRequest.fresh none
    (parseHere (str "GET / HT")).rc = .ok .indeterminate ∧
      SameResult (feed plainExternals noHook (parseHere (str "GET / HT")) [str "TP/1.1\r", str "\n\r\n"])
        (parseHere (str "GET / HTTP/1.1\r\n\r\n")) :=
  ⟨by decide +kernel, (parse_append noHook_calm (HttpParser.fresh 100 0 0) (fresh_calm 100 0 0)
    HttpRequest.fresh none (str "GET / HT") (str "TP") (by decide) (by decide)).2.2
    [str "TP/1.1\r", str "\n\r\n"] (by decide)⟩

end Pion.Proof
