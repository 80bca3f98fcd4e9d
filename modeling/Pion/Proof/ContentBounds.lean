import Pion.ContentWords
import Pion.Proof.Accounting
import Pion.Proof.Head

/-!
# Bodies of known length stay within bounds

`consume_content` combines four counters of machine words with the space of a buffer that is
shorter than the body when the limit is. One pass is compared with its words first: no sum
or difference wraps around, and the `memcpy` stays inside both buffers. Then `Filling` says
where the parser stands after any part of the body, and the passes of a run keep it.

Three things come in between. There may be no memory for the buffer: its size is up to the
client and the limit, and `new` throws. Behind the last byte, `finish` takes a form apart and may
throw, so the `true` that was due never comes. And the count of all bytes read since the parser
was reset is a word, too: it has to have room for the body.
-/

namespace Pion.Proof

open Pion Lib

variable {x : Externals} {hook : Hook}

/-! ## One pass -/

/-- The words have the values of the counters. -/
structure Counts (w : ContentWords) (p : HttpParser) : Prop where
  remaining : w.bytesContentRemaining.toNat = p.bytesContentRemaining
  read : w.bytesContentRead.toNat = p.bytesContentRead
  last : w.bytesLastRead.toNat = p.bytesLastRead
  total : w.bytesTotalRead.toNat = p.bytesTotalRead
  limit : w.maxContentLength.toNat = p.maxContentLength

/-- A pass of `consume_content` on a content buffer of `size` bytes, in machine words. -/
structure WithinBounds (size : Nat) (g : Progress) (r : ContentRead) : Prop where
  buffer : g.msg.contentBuf.length = size
  /-- No counter has wrapped around. -/
  counts : Counts r.words (consumeContent g).1.parser
  rc : (consumeContent g).2 = some r.rc
  /-- The `memcpy` stays in the content buffer and in what there is to read. -/
  bounded : ∀ c, r.copy = some c → c.offset.toNat + c.size.toNat ≤ size ∧ c.size.toNat ≤ g.unread.length
  /-- It is all that the message gets. -/
  msg : (consumeContent g).1.msg = r.copy.elim g.msg fun c => c.run g.msg g.unread

theorem toNat_word {n : Nat} (h : n < 2 ^ 64) : (UInt64.ofNat n).toNat = n :=
  UInt64.toNat_ofNat_of_lt' h

theorem toNat_word_add {a b : UInt64} (h : a.toNat + b.toNat < 2 ^ 64) :
    (a + b).toNat = a.toNat + b.toNat := by
  rw [UInt64.toNat_add]
  exact Nat.mod_eq_of_lt h

/-- Counters with room for the bytes that a pass takes. -/
structure Roomy (p : HttpParser) (available : Nat) : Prop where
  due : 0 < p.bytesContentRemaining
  length : p.bytesContentRead + p.bytesContentRemaining < 2 ^ 64
  limit : p.maxContentLength < 2 ^ 64
  buffer : available < 2 ^ 64
  total : p.bytesTotalRead + min p.bytesContentRemaining available < 2 ^ 64

/-- The counters of a body of known length fit into their words. -/
theorem contentWords_toNat {p : HttpParser}
    (hlength : p.bytesContentRead + p.bytesContentRemaining < 2 ^ 64)
    (hlimit : p.maxContentLength < 2 ^ 64) :
    p.contentWords.bytesContentRemaining.toNat = p.bytesContentRemaining ∧
      p.contentWords.bytesContentRead.toNat = p.bytesContentRead ∧
      p.contentWords.maxContentLength.toNat = p.maxContentLength :=
  ⟨toNat_word (by omega), toNat_word (by omega), toNat_word hlimit⟩

/-- `consume_content` counts `k` bytes. -/
theorem advance_counts {p : HttpParser} {k : Nat} (hk : k ≤ p.bytesContentRemaining)
    (hlength : p.bytesContentRead + p.bytesContentRemaining < 2 ^ 64)
    (hlimit : p.maxContentLength < 2 ^ 64) (htotal : p.bytesTotalRead + k < 2 ^ 64) :
    Counts (p.contentWords.advance (UInt64.ofNat k))
      ({ p with bytesContentRemaining := p.bytesContentRemaining - k }.accountContent k) := by
  obtain ⟨hrem, hread, hmax⟩ := contentWords_toNat hlength hlimit
  have hkw : (UInt64.ofNat k).toNat = k := toNat_word (by omega)
  have htot : p.contentWords.bytesTotalRead.toNat = p.bytesTotalRead := toNat_word (by omega)
  have hle : UInt64.ofNat k ≤ p.contentWords.bytesContentRemaining := by
    rw [UInt64.le_iff_toNat_le, hkw, hrem]
    exact hk
  refine ⟨?_, ?_, hkw, ?_, hmax⟩
  · show (p.contentWords.bytesContentRemaining - UInt64.ofNat k).toNat = p.bytesContentRemaining - k
    rw [UInt64.toNat_sub_of_le _ _ hle, hkw, hrem]
  · show (p.contentWords.bytesContentRead + UInt64.ofNat k).toNat = p.bytesContentRead + k
    rw [toNat_word_add (by rw [hread, hkw]; omega), hread, hkw]
  · show (p.contentWords.bytesTotalRead + UInt64.ofNat k).toNat = p.bytesTotalRead + k
    rw [toNat_word_add (by rw [htot, hkw]; exact htotal), htot, hkw]

/-- Where the `memcpy` of `k` bytes goes and how long it is: up to the limit. -/
theorem copy_eq {p : HttpParser} {k : Nat} (hk : k ≤ p.bytesContentRemaining)
    (hlength : p.bytesContentRead + p.bytesContentRemaining < 2 ^ 64)
    (hlimit : p.maxContentLength < 2 ^ 64) :
    (p.contentWords.copy (UInt64.ofNat k) = none ∧ p.maxContentLength ≤ p.bytesContentRead) ∨
    ∃ c, p.contentWords.copy (UInt64.ofNat k) = some c ∧ p.bytesContentRead < p.maxContentLength ∧
      c.offset.toNat = p.bytesContentRead ∧
      c.size.toNat = min k (p.maxContentLength - p.bytesContentRead) := by
  obtain ⟨_, hread, hmax⟩ := contentWords_toNat hlength hlimit
  have hkw : (UInt64.ofNat k).toNat = k := toNat_word (by omega)
  have hsum : (p.contentWords.bytesContentRead + UInt64.ofNat k).toNat = p.bytesContentRead + k := by
    rw [toNat_word_add (by rw [hread, hkw]; omega), hread, hkw]
  unfold ContentWords.copy
  by_cases hroom : p.contentWords.bytesContentRead < p.contentWords.maxContentLength
  · rw [if_pos hroom]
    have hlt := UInt64.lt_iff_toNat_lt.mp hroom
    rw [hread, hmax] at hlt
    refine Or.inr ?_
    by_cases hover : p.contentWords.bytesContentRead + UInt64.ofNat k > p.contentWords.maxContentLength
    · -- the buffer is filled up
      rw [if_pos hover]
      have hgt := UInt64.lt_iff_toNat_lt.mp hover
      rw [hsum, hmax] at hgt
      refine ⟨_, rfl, hlt, hread, ?_⟩
      dsimp only
      rw [UInt64.toNat_sub_of_le _ _ (UInt64.le_of_lt hroom), hmax, hread]
      omega
    · rw [if_neg hover]
      have hle := UInt64.le_iff_toNat_le.mp (UInt64.not_lt.mp hover)
      rw [hsum, hmax] at hle
      refine ⟨_, rfl, hlt, hread, ?_⟩
      dsimp only
      rw [hkw]
      omega
  · rw [if_neg hroom]
    have hle := UInt64.le_iff_toNat_le.mp (UInt64.not_lt.mp hroom)
    rw [hread, hmax] at hle
    exact Or.inl ⟨rfl, hle⟩

/-- **The `memcpy` of `k` bytes** stays in both buffers, and does what is left to do. -/
theorem copy_bounded {p : HttpParser} {m : HttpRequest} {unread : Bytes} {k : Nat}
    (hk : k ≤ p.bytesContentRemaining) (havailable : k ≤ unread.length)
    (hlength : p.bytesContentRead + p.bytesContentRemaining < 2 ^ 64)
    (hlimit : p.maxContentLength < 2 ^ 64) :
    let copy := p.contentWords.copy (UInt64.ofNat k)
    (∀ c, copy = some c →
      c.offset.toNat + c.size.toNat ≤
        min (p.bytesContentRead + p.bytesContentRemaining) p.maxContentLength ∧
      c.size.toNat ≤ unread.length) ∧
    storeContent p m (unread.take k) = copy.elim m fun c => c.run m unread := by
  intro copy
  rw [storeContent_eq, List.take_take]
  rcases copy_eq hk hlength hlimit with ⟨hnone, hfull⟩ | ⟨c, hsome, hroom, hoffset, hsize⟩
  · dsimp only [copy]
    rw [hnone]
    refine ⟨fun c hc => (by cases hc), ?_⟩
    rw [Nat.sub_eq_zero_of_le hfull, Nat.zero_min, List.take_zero, copyToContent_nil]
    rfl
  · dsimp only [copy]
    rw [hsome]
    constructor
    · rintro c' ⟨⟩
      rw [hoffset, hsize]
      omega
    · show _ = c.run m unread
      unfold ContentCopy.run
      rw [hoffset, hsize, Nat.min_comm]

/-- **One pass stays within bounds.** -/
theorem consumeContent_withinBounds {g : Progress} (hk : g.parser.payloadHandler = none)
    (hroomy : Roomy g.parser g.unread.length)
    (hbuf : g.msg.contentBuf.length =
      min (g.parser.bytesContentRead + g.parser.bytesContentRemaining) g.parser.maxContentLength) :
    WithinBounds (min (g.parser.bytesContentRead + g.parser.bytesContentRemaining)
        g.parser.maxContentLength) g
      (g.parser.contentWords.consumeContent (UInt64.ofNat g.unread.length)) := by
  obtain ⟨hdue, hlength, hlimit, havailable, htotal⟩ := hroomy
  obtain ⟨hrem, _, _⟩ := contentWords_toNat hlength hlimit
  have hne : ¬ g.parser.contentWords.bytesContentRemaining = 0 := by
    intro h
    rw [h] at hrem
    exact Nat.ne_of_lt hdue hrem
  have hnone : ¬ g.parser.payloadHandler.isSome = true := by
    rw [hk]
    exact Bool.false_ne_true
  have hpass := consumeContent_eq (calm_none hk) (Nat.pos_iff_ne_zero.mp hdue)
  rw [takeContent_cache hnone] at hpass
  unfold ContentWords.consumeContent
  rw [if_neg hne]
  by_cases hall : g.parser.bytesContentRemaining ≤ g.unread.length
  · -- the rest of the body is there
    have hcopy := copy_bounded (m := g.msg) (Nat.le_refl _) hall hlength hlimit
    have htake : (g.unread.take g.parser.bytesContentRemaining).length =
        g.parser.bytesContentRemaining := List.length_take_of_le hall
    rw [if_pos hall, htake] at hpass
    rw [Nat.min_eq_left hall] at htotal
    rw [if_pos (show _ ≤ _ by
      rw [UInt64.le_iff_toNat_le, toNat_word havailable]
      exact hrem ▸ hall)]
    refine ⟨hbuf, ?_, by rw [hpass], hcopy.1, by rw [hpass]; exact hcopy.2⟩
    rw [hpass]
    exact advance_counts (Nat.le_refl _) hlength hlimit htotal
  · have hlt : g.unread.length < g.parser.bytesContentRemaining := Nat.lt_of_not_le hall
    have hcopy := copy_bounded (m := g.msg) (Nat.le_of_lt hlt) (Nat.le_refl _) hlength hlimit
    rw [List.take_length] at hcopy
    rw [List.take_of_length_le (Nat.le_of_lt hlt), if_neg hall] at hpass
    rw [Nat.min_eq_right (Nat.le_of_lt hlt)] at htotal
    rw [if_neg (show ¬ _ ≤ _ by
      rw [UInt64.le_iff_toNat_le, toNat_word havailable]
      exact hrem ▸ hall)]
    refine ⟨hbuf, ?_, by rw [hpass], hcopy.1, by rw [hpass]; exact hcopy.2⟩
    rw [hpass]
    exact advance_counts (Nat.le_of_lt hlt) hlength hlimit htotal

/-! ## A body on its way -/

section Filling

variable {n max base : Nat} {headers : Dict}

/-- Where the parser and the message stand behind `done`, the first bytes of a body of `n`
bytes. In front of it, `base` bytes have been read. -/
structure Filling (n max base : Nat) (headers : Dict) (done : Bytes) (p : HttpParser)
    (m : HttpRequest) : Prop where
  state : p.messageParseState = .content
  handler : p.payloadHandler = none
  headersOnly : p.parseHeadersOnly = false
  limit : p.maxContentLength = max
  whole : p.bytesContentRead + p.bytesContentRemaining = n
  read : p.bytesContentRead = done.length
  total : p.bytesTotalRead = base + done.length
  contentLength : m.contentLength = min n max
  /-- What does not fit is dropped, what is missing is zero. -/
  buffer : m.contentBuf = done.take max ++ List.replicate (min n max - done.length) 0
  headers : m.headers = headers

theorem Filling.size {done : Bytes} {p : HttpParser} {m : HttpRequest}
    (h : Filling n max base headers done p m) : m.contentBuf.length = min n max := by
  have hwhole := h.whole
  have hread := h.read
  rw [h.buffer, List.length_append, List.length_take, List.length_replicate]
  omega

/-- The count of the last read does not matter. -/
theorem Filling.setLast {done : Bytes} {p : HttpParser} {m : HttpRequest}
    (h : Filling n max base headers done p m) (k : Nat) :
    Filling n max base headers done { p with bytesLastRead := k } m :=
  { h with }

/-- The buffer behind some more of the body. -/
theorem buffer_append (n max : Nat) (done data : Bytes) (hfit : done.length + data.length ≤ n) :
    let buf := done.take max ++ List.replicate (min n max - done.length) 0
    let stored := data.take (max - done.length)
    buf.take done.length ++ stored ++ buf.drop (done.length + stored.length) =
      (done ++ data).take max ++ List.replicate (min n max - (done ++ data).length) 0 := by
  intro buf stored
  dsimp only [buf, stored]
  have hsplit : (done ++ data).take max = done.take max ++ data.take (max - done.length) :=
    List.take_append
  rw [hsplit, List.length_append]
  by_cases hle : done.length ≤ max
  · have hstored : (data.take (max - done.length)).length = min (max - done.length) data.length :=
      List.length_take
    rw [List.take_of_length_le hle, List.take_left, List.drop_length_add_append, List.drop_replicate,
      hstored, show min n max - done.length - min (max - done.length) data.length =
        min n max - (done.length + data.length) by omega]
  · -- the limit has been reached before
    have hzero : max - done.length = 0 := by omega
    have hnone : min n max - done.length = 0 := by omega
    have hnone' : min n max - (done.length + data.length) = 0 := by omega
    rw [hzero, hnone, hnone', List.take_zero]
    simp only [List.replicate_zero, List.append_nil, List.length_nil, Nat.add_zero]
    exact List.take_append_drop _ _

/-- **Taking content fills the buffer further.** -/
theorem Filling.take {done : Bytes} {g : Progress} (h : Filling n max base headers done g.parser g.msg)
    (data : Bytes) (hdata : done.length + data.length ≤ n) :
    Filling n max base headers (done ++ data) (takeContent g data).parser (takeContent g data).msg := by
  have hwhole := h.whole
  have hread := h.read
  have hnone : ¬ g.parser.payloadHandler.isSome = true := by
    rw [h.handler]
    exact Bool.false_ne_true
  rw [takeContent_cache hnone, storeContent_eq, h.limit, hread]
  refine ⟨h.state, h.handler, h.headersOnly, h.limit, ?_, ?_, ?_, h.contentLength, ?_, h.headers⟩
  · show g.parser.bytesContentRead + data.length + (g.parser.bytesContentRemaining - data.length) = n
    omega
  · show g.parser.bytesContentRead + data.length = _
    rw [hread, List.length_append]
  · show g.parser.bytesTotalRead + data.length = _
    rw [h.total, List.length_append, Nat.add_assoc]
  · show (g.msg.copyToContent done.length (data.take (max - done.length))).contentBuf = _
    unfold HttpMessage.copyToContent
    rw [h.buffer]
    exact buffer_append n max done data hdata

/-- What a pass over content has in the counters. -/
theorem Filling.roomy {done : Bytes} {g : Progress} (h : Filling n max base headers done g.parser g.msg)
    (hdue : done.length < n) (hn : n < 2 ^ 64) (hmax : max < 2 ^ 64) (hbuf : g.unread.length < 2 ^ 64)
    (htotal : base + min n (done.length + g.unread.length) < 2 ^ 64) :
    Roomy g.parser g.unread.length := by
  have hwhole := h.whole
  have hread := h.read
  have hsum := h.total
  refine ⟨by omega, by omega, by rw [h.limit]; exact hmax, hbuf, by omega⟩

/-- A pass over content stays within bounds, wherever in the body it is. -/
theorem Filling.withinBounds {done : Bytes} {g : Progress}
    (h : Filling n max base headers done g.parser g.msg)
    (hdue : done.length < n) (hn : n < 2 ^ 64) (hmax : max < 2 ^ 64) (hbuf : g.unread.length < 2 ^ 64)
    (htotal : base + min n (done.length + g.unread.length) < 2 ^ 64) :
    WithinBounds (min n max) g
      (g.parser.contentWords.consumeContent (UInt64.ofNat g.unread.length)) := by
  have hbounds := consumeContent_withinBounds h.handler (h.roomy hdue hn hmax hbuf htotal)
  rw [h.whole, h.limit] at hbounds
  exact hbounds h.size

/-- A pass over content takes what there is, as far as it belongs to the body. -/
theorem Filling.pass [Memory] (hook : Hook) {done : Bytes} {g : Progress}
    (h : Filling n max base headers done g.parser g.msg) (hdue : done.length < n) (t : Nat) :
    let data := g.unread.take (n - done.length)
    ∃ t', parseSwitch x hook g t = (takeContent g data, t',
      .ok (if n - done.length ≤ g.unread.length then .true else .indeterminate)) := by
  have hwhole := h.whole
  have hread := h.read
  have hleft : g.parser.bytesContentRemaining = n - done.length := by omega
  have hpass := consumeContent_eq (calm_none h.handler) (g := g) (by omega)
  rw [hleft] at hpass
  intro data
  exact ⟨_, by rw [parseSwitch_content h.state, hpass]⟩

end Filling

/-! ## The passes of a run -/

section runs

variable [Memory]

/-- Where the loop of `parse` stands in front of each of its passes. -/
def loopPasses (x : Externals) (hook : Hook) : Nat → Progress → Nat → List Progress
  | 0, _, _ => []
  | n + 1, g, total =>
    match parseSwitch x hook g total with
    | (g', total', .ok .indeterminate) =>
      if g'.unread = [] then [g] else g :: loopPasses x hook n g' total'
    | _ => [g]

/-- The passes of all calls that `feed` makes. -/
def feedPasses (x : Externals) (hook : Hook) : ParseResult → List Bytes → List Progress
  | _, [] => []
  | r, b :: bs =>
    if r.rc = .ok .indeterminate then
      loopPasses x hook 3 (opened r.parser r.msg r.ec b) 0 ++
        feedPasses x hook (parse x hook r.parser r.msg r.ec b) bs
    else []

theorem loopPasses_done {g g' : Progress} {t t' : Nat} {rc : Except Exn Tribool}
    (h : parseSwitch x hook g t = (g', t', rc)) (hend : rc ≠ .ok .indeterminate ∨ g'.unread = [])
    (n : Nat) : loopPasses x hook (n + 1) g t = [g] := by
  rw [loopPasses, h]
  rcases rc with e | b
  · rfl
  cases b with
  | true => rfl
  | false => rfl
  | indeterminate => exact if_pos (hend.resolve_left fun hne => hne rfl)

theorem loopPasses_next {g g' : Progress} {t t' : Nat}
    (h : parseSwitch x hook g t = (g', t', .ok .indeterminate)) (hne : g'.unread ≠ []) (n : Nat) :
    loopPasses x hook (n + 1) g t = g :: loopPasses x hook n g' t' := by
  rw [loopPasses, h]
  exact if_neg hne

/-- A result is not taken back. -/
theorem feed_settled {r : ParseResult} (h : r.rc ≠ .ok .indeterminate) (bufs : List Bytes) :
    feed x hook r bufs = { r with unread := r.unread ++ bufs.flatten } ∧ feedPasses x hook r bufs = [] := by
  cases bufs with
  | nil =>
    rw [List.flatten_nil, List.append_nil]
    exact ⟨rfl, rfl⟩
  | cons b bs => exact ⟨if_neg h, if_neg h⟩

end runs

/-! ## A body in one or more reads -/

section Body

variable {n max base : Nat} {headers : Dict}

/-- The whole body has been read. Only `finish` can still get in the way. -/
structure Filled (x : Externals) (n max base : Nat) (headers : Dict) (body rest : Bytes)
    (r : ParseResult) : Prop where
  unread : r.unread = rest
  settled : r.rc ≠ .ok .indeterminate
  rc : r.rc = .ok .true ↔ ¬ FormThrows x (headers.getValue headerContentType) (body.take max)
  content : r.msg.content = body.take max
  contentLength : r.msg.contentLength = min n max
  total : r.parser.bytesTotalRead = base + n

theorem parseEnd_settled (g : Progress) (t : Nat) :
    (parseEnd x g t (.ok .true)).rc ≠ .ok .indeterminate ∧
      (parseEnd x g t (.ok .true)).parser.bytesTotalRead = g.parser.bytesTotalRead := by
  unfold parseEnd
  dsimp only
  rcases finish x { g.parser with messageParseState := .end } g.msg with ⟨m, e⟩
  cases e with
  | none => exact ⟨fun h => (by cases h), rfl⟩
  | some e => exact ⟨fun h => (by cases h), rfl⟩

/-- **The end of the body**, with a full buffer. -/
theorem Filling.ends {body : Bytes} {g : Progress} (h : Filling n max base headers body g.parser g.msg)
    (hall : body.length = n) (t : Nat) :
    Filled x n max base headers body g.unread (parseEnd x g t (.ok .true)) := by
  obtain ⟨hunread, _, _, hmsg, hrc⟩ := parseEnd_true (x := x) g t
  obtain ⟨hsettled, htotal⟩ := parseEnd_settled (x := x) g t
  have hcontent : g.msg.content = body.take max := by
    unfold HttpMessage.content
    rw [h.contentLength, h.buffer, show min n max - body.length = 0 by omega, List.replicate_zero,
      List.append_nil]
    refine List.take_of_length_le ?_
    rw [List.length_take]
    omega
  have hthrow : FinishThrows x g.parser g.msg ↔
      FormThrows x (headers.getValue headerContentType) (body.take max) := by
    unfold FinishThrows HttpMessage.getHeader
    rw [hcontent, h.headers]
    exact ⟨fun hf => hf.2.2, fun hf => ⟨h.handler, h.headersOnly, hf⟩⟩
  refine ⟨hunread, hsettled, hrc.trans (not_congr hthrow), ?_, ?_, ?_⟩
  · rw [hmsg]
    exact hcontent
  · rw [hmsg]
    exact h.contentLength
  · rw [htotal, h.total, hall]

/-- How far a body has come that the bytes in `read` belong to, with those behind it. -/
inductive Reading (x : Externals) (n max base : Nat) (headers : Dict) (read : Bytes)
    (r : ParseResult) : Prop
  | waits : read.length < n → r.rc = .ok .indeterminate → r.unread = [] →
      Filling n max base headers read r.parser r.msg → Reading x n max base headers read r
  | filled : n ≤ read.length → Filled x n max base headers (read.take n) (read.drop n) r →
      Reading x n max base headers read r

/-- A call that has come to content has one more pass. -/
theorem Filling.call [Memory] (hook : Hook) {done : Bytes} {g : Progress}
    (h : Filling n max base headers done g.parser g.msg) (hdue : done.length < n) (k t : Nat) :
    Reading x n max base headers (done ++ g.unread)
      (parseEnd x (parseLoop x hook (k + 1) g t).1 (parseLoop x hook (k + 1) g t).2.1
        (parseLoop x hook (k + 1) g t).2.2) ∧
    loopPasses x hook (k + 1) g t = [g] := by
  obtain ⟨t', hpass⟩ := h.pass (x := x) hook hdue t
  have hunread : ∀ data, (takeContent g data).unread = g.unread.drop data.length := fun data =>
    (takeContent_counters g data).1
  by_cases hall : n ≤ done.length + g.unread.length
  · have hlen : (g.unread.take (n - done.length)).length = n - done.length :=
      List.length_take_of_le (by omega)
    rw [if_pos (by omega)] at hpass
    have hends := (h.take (g.unread.take (n - done.length)) (by omega)).ends (x := x)
      (by rw [List.length_append]; omega) t'
    have htake : (done ++ g.unread).take n = done ++ g.unread.take (n - done.length) := by
      rw [List.take_append, List.take_of_length_le (Nat.le_of_lt hdue)]
    have hdrop : (done ++ g.unread).drop n = g.unread.drop (n - done.length) := by
      rw [List.drop_append, List.drop_eq_nil_of_le (Nat.le_of_lt hdue), List.nil_append]
    rw [hunread, hlen, ← htake, ← hdrop] at hends
    rw [parseLoop_done hpass (by intro h; cases h)]
    exact ⟨.filled (by rw [List.length_append]; exact hall) hends,
      loopPasses_done hpass (.inl fun h => by cases h) k⟩
  · have htake : g.unread.take (n - done.length) = g.unread := List.take_of_length_le (by omega)
    rw [if_neg (by omega), htake] at hpass
    have hnil : (takeContent g g.unread).unread = [] := by
      rw [hunread, List.drop_length]
    have hmore := h.take g.unread (by omega)
    rw [parseLoop_waiting hpass hnil]
    refine ⟨.waits ?_ rfl hnil (hmore.setLast t'), loopPasses_done hpass (.inr hnil) k⟩
    rw [List.length_append]
    omega

/-- `parse` notes missing packets in a flag that nothing here looks at. -/
theorem Filling.opened {done : Bytes} {p : HttpParser} {m : HttpRequest}
    (h : Filling n max base headers done p m) (ec : Option ErrorValue) (buf : Bytes) :
    Filling n max base headers done (opened p m ec buf).parser (opened p m ec buf).msg := by
  unfold Proof.opened
  rw [noteMissingPackets_frame]
  exact { h with }

/-- **A body in any number of reads.** -/
theorem Reading.run [Memory] (hook : Hook) : ∀ (bufs : List Bytes) (read : Bytes) (r : ParseResult),
    Reading x n max base headers read r →
    Reading x n max base headers (read ++ bufs.flatten) (feed x hook r bufs) := by
  intro bufs
  induction bufs with
  | nil =>
    intro read r h
    rw [List.flatten_nil, List.append_nil]
    exact h
  | cons b bs ih =>
    intro read r h
    cases h with
    | waits hdue hrc _ hfill =>
      have hcall := ((hfill.opened r.ec b).call (x := x) hook hdue 2 0).1
      rw [feed, if_pos hrc, List.flatten_cons, ← List.append_assoc]
      exact ih (read ++ b) (parse x hook r.parser r.msg r.ec b) hcall
    | filled hall hfilled =>
      rw [(feed_settled hfilled.settled (b :: bs)).1]
      refine .filled (by rw [List.length_append]; omega) ?_
      rw [List.take_append_of_le_length hall, List.drop_append_of_le_length hall]
      exact { hfilled with unread := congrArg (· ++ (b :: bs).flatten) hfilled.unread }

/-- **Every pass of these reads stays within bounds.** -/
theorem Reading.passes [Memory] (hn : n < 2 ^ 64) (hmax : max < 2 ^ 64) : ∀ (bufs : List Bytes) (read : Bytes)
    (r : ParseResult), Reading x n max base headers read r → (∀ b ∈ bufs, b.length < 2 ^ 64) →
    base + min n (read ++ bufs.flatten).length < 2 ^ 64 →
    ∀ g ∈ feedPasses x hook r bufs, WithinBounds (min n max) g
      (g.parser.contentWords.consumeContent (UInt64.ofNat g.unread.length)) := by
  intro bufs
  induction bufs with
  | nil => exact fun _ _ _ _ _ g hg => (by cases hg)
  | cons b bs ih =>
    intro read r h hbufs htotal g hg
    rw [List.flatten_cons, ← List.append_assoc] at htotal
    cases h with
    | waits hdue hrc _ hfill =>
      obtain ⟨hcall, hpasses⟩ := (hfill.opened r.ec b).call (x := x) hook hdue 2 0
      rw [feedPasses, if_pos hrc, hpasses, List.mem_append, List.mem_singleton] at hg
      rcases hg with rfl | hg
      · refine (hfill.opened r.ec b).withinBounds hdue hn hmax (hbufs b List.mem_cons_self) ?_
        show base + min n (read.length + b.length) < 2 ^ 64
        rw [List.length_append, List.length_append] at htotal
        omega
      · exact ih (read ++ b) (parse x hook r.parser r.msg r.ec b) hcall
          (fun c hc => hbufs c (List.mem_cons_of_mem b hc)) htotal g hg
    | filled _ hfilled =>
      rw [(feed_settled hfilled.settled (b :: bs)).2] at hg
      cases hg

end Body

/-! ## From the head on -/

/-- A parser in front of a request or in its head, without a payload handler, that is to read
the body, too. -/
structure BeforeBody (p : HttpParser) : Prop where
  state : p.messageParseState = .start ∨ p.messageParseState = .headers
  handler : p.payloadHandler = none
  headersOnly : p.parseHeadersOnly = false

/-- There is memory for what is kept of a body of `n` bytes. -/
def MemoryFor [Memory] (n max : Nat) : Prop := min n max = 0 ∨ Memory.allocates (min n max + 1) = true

section memory

variable [Memory]

theorem contentBufferFails_iff (n max : Nat) {p : HttpParser} {m : HttpRequest} {rc : Tribool}
    (hst : p.messageParseState = .content) (hlen : m.contentLength = min n max) (hrc : rc = .indeterminate) :
    contentBufferFails p m rc = true ↔ ¬ MemoryFor n max := by
  unfold contentBufferFails HttpMessage.contentBufferAllocates MemoryFor
  rw [hst, hlen, hrc]
  simp [and_comm]

/-- The pass that comes to the end of the head, where the content buffer is made. -/
theorem BeforeBody.pass {p : HttpParser} (hp : BeforeBody p) {m : HttpRequest} {buf tail : Bytes}
    {s : HeaderState}
    (hhead : (headerScanner x).run (p.toHeaderFields, noteMissingPackets m) buf = .stop none s tail)
    {n : Nat} (hn : n ≠ 0) (hf : framing x (headRequest x s) = some (.length n))
    (ec : Option ErrorValue) :
    (MemoryFor n p.maxContentLength →
      ∃ g t, parseSwitch x noHook (opened p m ec buf) 0 = (g, t, .ok .indeterminate) ∧
        g.unread = tail ∧ Filling n p.maxContentLength (p.bytesTotalRead + (buf.length - tail.length))
          (headRequest x s).headers [] g.parser g.msg) ∧
    (¬ MemoryFor n p.maxContentLength →
      ∃ g t, parseSwitch x noHook (opened p m ec buf) 0 = (g, t, .error .badAlloc)) := by
  obtain ⟨k, rfl⟩ := Nat.exists_eq_succ_of_ne_zero hn
  have hpass : parseSwitch x noHook (opened p m ec buf) 0 = parseHeadersCase x noHook
      { opened p m ec buf with parser := { p with messageParseState := .headers } } 0 := by
    rcases hp.state with hst | hst
    · rw [parseSwitch_start hst]
      rfl
    · rw [parseSwitch_headers hst, ← hst]
      rfl
  have hdone := parseHeaders_done
    (g := { opened p m ec buf with parser := { p with messageParseState := .headers } }) hhead
  have hsplit := decideFraming_eq (x := x) (p := (beforeFraming x (HttpParser.account
    { p with messageParseState := .headers, toHeaderFields := s.1 } (buf.length - tail.length)) s.2).1)
    hp.headersOnly rfl (headRequest x s)
  rw [hf, Option.map_some] at hsplit
  rw [hpass, parseHeadersCase_headers hdone rfl]
  constructor
  · intro hmem
    rw [finishHeaderParsing_hook hsplit (Bool.eq_false_iff.mpr fun h =>
      (contentBufferFails_iff (k + 1) p.maxContentLength rfl rfl rfl).mp h hmem)]
    refine ⟨_, _, rfl, rfl, rfl, ?_, hp.headersOnly, rfl, ?_, rfl, rfl, rfl, ?_, rfl⟩
    · exact hp.handler
    · exact Nat.zero_add _
    · show List.replicate (min (k + 1) p.maxContentLength) 0 = ([] : Bytes).take p.maxContentLength ++ _
      rw [List.take_nil]
      rfl
  · intro hmem
    rw [finishHeaderParsing_throws hsplit
      ((contentBufferFails_iff (k + 1) p.maxContentLength rfl rfl rfl).mpr hmem)]
    exact ⟨_, _, rfl⟩

/-- Without memory for the buffer, an exception leaves `parse`. -/
theorem BeforeBody.throws {p : HttpParser} (hp : BeforeBody p) {m : HttpRequest} {buf tail : Bytes}
    {s : HeaderState}
    (hhead : (headerScanner x).run (p.toHeaderFields, noteMissingPackets m) buf = .stop none s tail)
    {n : Nat} (hn : n ≠ 0) (hf : framing x (headRequest x s) = some (.length n))
    (ec : Option ErrorValue) (hmem : ¬ MemoryFor n p.maxContentLength) :
    (parse x noHook p m ec buf).rc = .error .badAlloc := by
  obtain ⟨g, t, hpass⟩ := (hp.pass hhead hn hf ec).2 hmem
  rw [parse_of_loop (parseLoop_done hpass (fun h => by cases h) 2)]
  rfl

/-- **A call that comes to the end of the head** reads on as far as it can. -/
theorem BeforeBody.call {p : HttpParser} (hp : BeforeBody p) {m : HttpRequest} {buf tail : Bytes}
    {s : HeaderState}
    (hhead : (headerScanner x).run (p.toHeaderFields, noteMissingPackets m) buf = .stop none s tail)
    {n : Nat} (hn : n ≠ 0) (hf : framing x (headRequest x s) = some (.length n))
    (hmem : MemoryFor n p.maxContentLength) (ec : Option ErrorValue) :
    ∃ g t, g.unread = tail ∧
      Filling n p.maxContentLength (p.bytesTotalRead + (buf.length - tail.length))
        (headRequest x s).headers [] g.parser g.msg ∧
      Reading x n p.maxContentLength (p.bytesTotalRead + (buf.length - tail.length))
        (headRequest x s).headers tail (parse x noHook p m ec buf) ∧
      loopPasses x noHook 3 (opened p m ec buf) 0 =
        opened p m ec buf :: if tail = [] then [] else loopPasses x noHook 2 g t := by
  obtain ⟨g, t, hpass, hunread, hfill⟩ := (hp.pass hhead hn hf ec).1 hmem
  refine ⟨g, t, hunread, hfill, ?_⟩
  by_cases hnil : tail = []
  · rw [if_pos hnil, parse_of_loop (parseLoop_waiting hpass (hunread.trans hnil) 2), hnil]
    rw [hnil] at hfill
    exact ⟨.waits (Nat.pos_of_ne_zero hn) rfl (hunread.trans hnil) (hfill.setLast t),
      loopPasses_done hpass (.inr (hunread.trans hnil)) 2⟩
  · have hne : g.unread ≠ [] := by rwa [hunread]
    have hcall := (hfill.call (x := x) noHook (Nat.pos_of_ne_zero hn) 1 t).1
    rw [List.nil_append, hunread] at hcall
    rw [if_neg hnil]
    refine ⟨?_, loopPasses_next hpass hne 2⟩
    rw [parse_of_loop (parseLoop_next hpass hne 2)]
    exact hcall

/-- **Every pass of the run stays within bounds**, from the head on. -/
theorem BeforeBody.passes {p : HttpParser} (hp : BeforeBody p) (hmax : p.maxContentLength < 2 ^ 64)
    {m : HttpRequest} {buf tail : Bytes} {s : HeaderState}
    (hhead : (headerScanner x).run (p.toHeaderFields, noteMissingPackets m) buf = .stop none s tail)
    {n : Nat} (hn : n ≠ 0) (hword : n < 2 ^ 64) (hf : framing x (headRequest x s) = some (.length n))
    (hmem : MemoryFor n p.maxContentLength) (ec : Option ErrorValue) {bufs : List Bytes}
    (hbufs : ∀ b ∈ buf :: bufs, b.length < 2 ^ 64)
    (htotal : p.bytesTotalRead + (buf.length - tail.length) + min n (tail ++ bufs.flatten).length < 2 ^ 64) :
    ∀ g ∈ feedPasses x noHook (waitingWith p m ec) (buf :: bufs), g.parser.messageParseState = .content →
      WithinBounds (min n p.maxContentLength) g
        (g.parser.contentWords.consumeContent (UInt64.ofNat g.unread.length)) := by
  obtain ⟨g₁, t₁, hunread, hfill, hcall, hpasses⟩ := hp.call hhead hn hf hmem ec
  have hpos : 0 < n := Nat.pos_of_ne_zero hn
  have hsplit : feedPasses x noHook (waitingWith p m ec) (buf :: bufs) =
      loopPasses x noHook 3 (opened p m ec buf) 0 ++ feedPasses x noHook (parse x noHook p m ec buf) bufs :=
    if_pos rfl
  intro g hg hcontent
  rw [hsplit, hpasses, List.mem_append, List.mem_cons] at hg
  rcases hg with (rfl | hg) | hg
  · -- this pass is in the head
    rcases hp.state with hst | hst
    · cases hst.symm.trans hcontent
    · cases hst.symm.trans hcontent
  · split at hg
    · cases hg
    · rw [(hfill.call (x := x) noHook hpos 1 t₁).2, List.mem_singleton] at hg
      subst hg
      have htail : tail.length < 2 ^ 64 :=
        Nat.lt_of_le_of_lt (headerScanner_suffix hhead).length_le (hbufs buf List.mem_cons_self)
      refine hfill.withinBounds hpos hword hmax (hunread ▸ htail) ?_
      rw [List.length_append] at htotal
      rw [List.length_nil, hunread]
      omega
  · exact Reading.passes hword hmax bufs tail _ hcall
      (fun b hb => hbufs b (List.mem_cons_of_mem buf hb)) htotal g hg

end memory

/-- What is due of a body of `n` bytes, when `following` has come behind its head. -/
structure ContentStored (n max : Nat) (following : Bytes) (passes : List Progress) (r : ParseResult) :
    Prop where
  bounds : ∀ g ∈ passes, g.parser.messageParseState = .content → WithinBounds (min n max) g
    (g.parser.contentWords.consumeContent (UInt64.ofNat g.unread.length))
  /-- The count of all bytes has not wrapped around. -/
  total : r.parser.bytesTotalRead < 2 ^ 64
  waits : following.length < n → r.rc = .ok .indeterminate ∧ r.unread = []
  whole : n ≤ following.length → r.rc = .ok .true ∧ r.unread = following.drop n ∧
    r.msg.content = following.take (min n max) ∧ r.msg.contentLength = min n max

theorem Reading.total {n max base : Nat} {headers : Dict} {read : Bytes} {r : ParseResult}
    (h : Reading x n max base headers read r) : r.parser.bytesTotalRead = base + min n read.length := by
  cases h with
  | waits hdue _ _ hfill => rw [hfill.total, Nat.min_eq_right (Nat.le_of_lt hdue)]
  | filled hall hfilled => rw [hfilled.total, Nat.min_eq_left hall]

/--
**Bodies with a content length.** However the bytes behind the head are split into reads,
the body is stored within bounds and up to the limit, and `parse` is true behind its last
byte, if and only if there is memory for the buffer, the body is none of the forms that `finish`
throws for and the count of all bytes has room for it.
-/
theorem content_stored_iff [Memory] (x : Externals) (p : HttpParser) (hp : BeforeBody p)
    (hmax : p.maxContentLength ≤ 2 ^ 63) (m : HttpRequest) (ec : Option ErrorValue)
    (buf tail : Bytes) (s : HeaderState)
    (hhead : (headerScanner x).run (p.toHeaderFields, noteMissingPackets m) buf = .stop none s tail)
    (n : UInt64) (hn : n ≠ 0) (hf : framing x (headRequest x s) = some (.length n.toNat))
    (bufs : List Bytes) (hbufs : ∀ b ∈ buf :: bufs, b.length < 2 ^ 64) :
    let following := tail ++ bufs.flatten
    ContentStored n.toNat p.maxContentLength following
      (feedPasses x noHook (waitingWith p m ec) (buf :: bufs))
      (feed x noHook (waitingWith p m ec) (buf :: bufs)) ↔
    MemoryFor n.toNat p.maxContentLength ∧
    (n.toNat ≤ following.length → ¬ FormThrows x ((headRequest x s).getHeader headerContentType)
      (following.take (min n.toNat p.maxContentLength))) ∧
    p.bytesTotalRead + (buf.length - tail.length) + min n.toNat following.length < 2 ^ 64 := by
  intro following
  have hn' : n.toNat ≠ 0 := fun h => hn (UInt64.toNat_inj.mp h)
  have hfeed : feed x noHook (waitingWith p m ec) (buf :: bufs) =
      feed x noHook (parse x noHook p m ec buf) bufs := if_pos rfl
  have hword : p.maxContentLength < 2 ^ 64 := lt_of_le_of_lt hmax (by decide)
  by_cases hmem : MemoryFor n.toNat p.maxContentLength
  swap
  · -- the exception is no result, and nothing is read after it
    have hthrows := hp.throws hhead hn' hf ec hmem
    have hsettled : (parse x noHook p m ec buf).rc ≠ .ok .indeterminate := fun h => by
      rw [hthrows] at h
      cases h
    rw [hfeed, (feed_settled hsettled bufs).1]
    refine ⟨fun h => ?_, fun h => absurd h.1 hmem⟩
    rcases Nat.lt_or_ge following.length n.toNat with hlt | hall
    · cases hthrows.symm.trans (h.waits hlt).1
    · cases hthrows.symm.trans (h.whole hall).1
  obtain ⟨_, _, _, _, hcall, _⟩ := hp.call hhead hn' hf hmem ec
  have hread := Reading.run noHook bufs tail _ hcall
  have htake : (following.take n.toNat).take p.maxContentLength =
      following.take (min n.toNat p.maxContentLength) := by
    rw [List.take_take, Nat.min_comm]
  rw [hfeed]
  constructor
  · intro h
    have htotal := h.total
    rw [hread.total] at htotal
    refine ⟨hmem, fun hall => ?_, htotal⟩
    cases hread with
    | waits hdue => exact absurd hall (Nat.not_le.mpr hdue)
    | filled _ hfilled =>
      rw [← htake]
      exact hfilled.rc.mp (h.whole hall).1
  · rintro ⟨_, hform, htotal⟩
    refine ⟨hp.passes hword hhead hn' n.toNat_lt hf hmem ec hbufs htotal, ?_, ?_, ?_⟩
    · rw [hread.total]
      exact htotal
    · intro hlt
      cases hread with
      | waits _ hrc hnil _ => exact ⟨hrc, hnil⟩
      | filled hall _ => exact absurd hall (Nat.not_le.mpr hlt)
    · intro hall
      cases hread with
      | waits hdue => exact absurd hall (Nat.not_le.mpr hdue)
      | filled _ hfilled =>
        refine ⟨hfilled.rc.mpr ?_, hfilled.unread, hfilled.content.trans htake, hfilled.contentLength⟩
        rw [htake]
        exact hform hall

/-- The head of a request with a body of five bytes. -/
def fiveHead : Bytes := str "POST / HTTP/1.1\r\nContent-Length: 5\r\n\r\n"

def fiveHeadState : HeaderState :=
  ({ headersParseState := .expectingFinalNewline, method := str "POST", resource := str "/",
     headerName := str "Content-Length", headerValue := str "5" },
   { headers := [(str "Content-Length", str "5")] })

/-- In two reads, with another request behind it and room for three bytes. -/
theorem content_stored_split :
    let bufs := [fiveHead ++ str "ab", str "cdeGET"]
    ContentStored 5 3 (str "abcdeGET")
      (feedPasses plainExternals noHook (waitingWith (HttpParser.fresh 3 0 0) HttpRequest.fresh none) bufs)
      (feed plainExternals noHook (waitingWith (HttpParser.fresh 3 0 0) HttpRequest.fresh none) bufs) := by
  refine (content_stored_iff plainExternals (HttpParser.fresh 3 0 0) ⟨Or.inl rfl, rfl, rfl⟩ (by decide)
    HttpRequest.fresh none (fiveHead ++ str "ab") (str "ab") fiveHeadState (by decide +kernel) 5
    (by decide) (by decide +kernel) [str "cdeGET"] (by decide +kernel)).mpr
    ⟨.inr rfl, fun _ h => ?_, by decide⟩
  exact absurd h.2.1 (by decide +kernel)

/-- The head of a form with one empty field. -/
def formHead : Bytes :=
  str "POST / HTTP/1.1\r\nContent-Type: multipart/form-data; boundary=b\r\nContent-Length: 58\r\n\r\n"

def formHeadState : HeaderState :=
  ({ headersParseState := .expectingFinalNewline, method := str "POST", resource := str "/",
     headerName := str "Content-Length", headerValue := str "58" },
   { headers := [(str "Content-Type", str "multipart/form-data; boundary=b"),
                 (str "Content-Length", str "58")] })

/-- The body is there and fits, but `parse` does not get to say so. -/
theorem content_stored_emptyField :
    let p := HttpParser.fresh 1000 0 0
    let start := waitingWith p HttpRequest.fresh none
    BeforeBody p ∧
      (headerScanner plainExternals).run (p.toHeaderFields, noteMissingPackets HttpRequest.fresh)
        (formHead ++ emptyField) = .stop none formHeadState emptyField ∧
      framing plainExternals (headRequest plainExternals formHeadState) = some (.length 58) ∧
      ¬ ContentStored 58 1000 emptyField (feedPasses plainExternals noHook start [formHead ++ emptyField])
        (feed plainExternals noHook start [formHead ++ emptyField]) := by
  intro p start
  refine ⟨⟨Or.inl rfl, rfl, rfl⟩, by decide +kernel, by decide +kernel, fun h => ?_⟩
  exact absurd (h.whole (by decide)).1 (by decide +kernel)

/-- In a process that cannot have 2^48 bytes, a client asks for 2^62. -/
example : letI : Memory := ⟨fun size => size < 2 ^ 48⟩
    (feed plainExternals noHook (waitingWith (HttpParser.fresh (2 ^ 62) 0 0) HttpRequest.fresh none)
      [str "POST / HTTP/1.1\r\nContent-Length: 4611686018427387904\r\n\r\n"]).rc = .error .badAlloc := by
  decide +kernel

end Pion.Proof
