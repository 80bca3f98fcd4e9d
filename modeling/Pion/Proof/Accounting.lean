import Pion.Proof.Chunked

/-!
# Every byte is accounted for

`parse` is a loop over the phases of a message, and each phase moves the read pointer and
counts the bytes it has used up in its own way. Some passes use up nothing at all, so it
is not the buffer that makes the loop end: a pass that wants another one, with bytes at
hand, has moved on to a later phase.

The counters are only as good as the pass that writes them. `consume_content` returns
early when no content is to come, and leaves the count of an earlier operation behind.
That does not happen to a parser that waits for content, unless its payload handler has
thrown.
-/

namespace Pion.Proof

open Pion Lib

variable {x : Externals} {hook : Hook}

/-! ## The loop -/

/-- The do-while loop of `parse`, as far as it ends: from `g` with `t` bytes counted, it ends
in `g'` with `t'` bytes counted and the result `rc`. -/
inductive LoopEnds (x : Externals) (hook : Hook) :
    Progress → Nat → Progress → Nat → Except Exn Tribool → Prop
  | leave {g g' : Progress} {t t' : Nat} {rc : Except Exn Tribool} :
    parseSwitch x hook g t = (g', t', rc) → rc ≠ .ok .indeterminate ∨ g'.unread = [] →
      LoopEnds x hook g t g' t' rc
  | again {g g' h : Progress} {t t' u : Nat} {rc : Except Exn Tribool} :
    parseSwitch x hook g t = (g', t', .ok .indeterminate) → g'.unread ≠ [] →
      LoopEnds x hook g' t' h u rc → LoopEnds x hook g t h u rc

/-- **The loop of `parse` ends**, within as many passes as there are phases to come. -/
theorem parseLoop_ends (hook : Hook) : ∀ (n : Nat) (g : Progress) (t : Nat),
    passes g.parser.messageParseState ≤ n →
    LoopEnds x hook g t (parseLoop x hook n g t).1 (parseLoop x hook n g t).2.1
      (parseLoop x hook n g t).2.2 := by
  intro n
  induction n with
  | zero =>
    intro g t hn
    have := passes_pos g.parser.messageParseState
    omega
  | succ n ih =>
    intro g t hn
    have hspec := parseSwitch_spec x hook g t
    rw [parseLoop]
    rcases hr : parseSwitch x hook g t with ⟨g', t', rc⟩
    rw [hr] at hspec
    rcases rc with e | b
    · exact .leave hr (Or.inl fun h => by cases h)
    cases b with
    | true => exact .leave hr (Or.inl fun h => by cases h)
    | false => exact .leave hr (Or.inl fun h => by cases h)
    | indeterminate =>
      dsimp only
      by_cases hu : g'.unread = []
      · rw [if_pos hu]
        exact .leave hr (Or.inr hu)
      · rw [if_neg hu]
        have hlt : passes g'.parser.messageParseState < passes g.parser.messageParseState :=
          hspec.order rfl hu
        exact .again hr hu (ih g' t' (by omega))

/-! ## One phase -/

/-- From `g` to `g'` the read pointer has moved by `n` bytes, which have been counted. -/
structure Counted (g g' : Progress) (n : Nat) : Prop where
  moved : ∃ front, g.unread = front ++ g'.unread ∧ front.length = n
  total : g'.parser.bytesTotalRead = g.parser.bytesTotalRead + n

/-- The bytes in front of what is left. -/
theorem exists_front {buf rest : Bytes} (h : rest <:+ buf) :
    ∃ front, buf = front ++ rest ∧ front.length = buf.length - rest.length := by
  obtain ⟨front, rfl⟩ := h
  refine ⟨front, rfl, ?_⟩
  rw [List.length_append]
  omega

theorem parseHeaders_counted (g : Progress) :
    (parseHeaders x g).1.unread <:+ g.unread ∧
      ((parseHeaders x g).2 ≠ .false →
        Counted g (parseHeaders x g).1 (parseHeaders x g).1.parser.bytesLastRead) := by
  unfold parseHeaders
  dsimp only
  split
  · exact ⟨List.nil_suffix, fun _ => ⟨⟨g.unread, (List.append_nil _).symm, rfl⟩, rfl⟩⟩
  · rename_i s rest hrun
    exact ⟨headerScanner_suffix hrun, fun _ => ⟨exists_front (headerScanner_suffix hrun), rfl⟩⟩
  · rename_i e s rest hrun
    exact ⟨headerScanner_suffix hrun, fun h => absurd rfl h⟩

theorem parseChunks_counted (g : Progress) :
    (parseChunks g).1.unread <:+ g.unread ∧
      ∀ rc, (parseChunks g).2 = some rc → rc ≠ .false →
        Counted g (parseChunks g).1 (parseChunks g).1.parser.bytesLastRead := by
  unfold parseChunks
  dsimp only
  split
  · exact ⟨List.nil_suffix, fun _ _ _ => ⟨⟨g.unread, (List.append_nil _).symm, rfl⟩, rfl⟩⟩
  · rename_i s rest hrun
    exact ⟨chunkScanner_suffix hrun, fun _ _ _ => ⟨exists_front (chunkScanner_suffix hrun), rfl⟩⟩
  · rename_i s rest hrun
    exact ⟨chunkScanner_suffix hrun, fun _ _ _ => ⟨exists_front (chunkScanner_suffix hrun), rfl⟩⟩
  · rename_i e s rest hrun
    refine ⟨chunkScanner_suffix hrun, fun rc h hne => ?_⟩
    injection h with h
    exact absurd h.symm hne
  · rename_i s rest hrun
    exact ⟨chunkScanner_suffix hrun, fun rc h => by cases h⟩

/-- A parser in the middle of a body of known length waits for some of it. -/
def Due (p : HttpParser) : Prop := p.messageParseState = .content → 0 < p.bytesContentRemaining

theorem takeContent_counters (g : Progress) (data : Bytes) :
    (takeContent g data).unread = g.unread.drop data.length ∧
      (takeContent g data).parser.bytesLastRead = data.length ∧
      (takeContent g data).parser.bytesTotalRead = g.parser.bytesTotalRead + data.length ∧
      (takeContent g data).parser.bytesContentRemaining =
        g.parser.bytesContentRemaining - data.length := by
  unfold takeContent
  dsimp only
  split
  · exact ⟨rfl, rfl, rfl, rfl⟩
  · exact ⟨rfl, rfl, rfl, rfl⟩

/-- With content to come and a calm handler, `consume_content` counts what it reads. -/
theorem consumeContent_counted {g : Progress} (hcalm : Calm g.parser.toChunkFields)
    (hdue : 0 < g.parser.bytesContentRemaining) :
    ∃ rc, (consumeContent g).2 = some rc ∧
      Counted g (consumeContent g).1 (consumeContent g).1.parser.bytesLastRead ∧
      (rc ≠ .true → 0 < (consumeContent g).1.parser.bytesContentRemaining) := by
  let data := g.unread.take g.parser.bytesContentRemaining
  have hlen : data.length = min g.parser.bytesContentRemaining g.unread.length := List.length_take
  obtain ⟨h1, h2, h3, h4⟩ := takeContent_counters g data
  rw [consumeContent_eq hcalm (Nat.pos_iff_ne_zero.mp hdue)]
  refine ⟨_, rfl, ⟨⟨data, ?_, h2.symm⟩, ?_⟩, ?_⟩
  · have hback : g.unread.drop g.parser.bytesContentRemaining = g.unread.drop data.length := by
      rw [hlen]
      by_cases hle : g.parser.bytesContentRemaining ≤ g.unread.length
      · rw [Nat.min_eq_left hle]
      · rw [Nat.min_eq_right (by omega), List.drop_length, List.drop_eq_nil_iff]
        omega
    rw [h1, ← hback]
    exact (List.take_append_drop _ _).symm
  · rw [h3, h2]
  · intro hrc
    dsimp only at hrc ⊢
    rw [h4, hlen]
    split at hrc
    · exact absurd rfl hrc
    · omega

theorem consumeContentAsNextChunk_counted {g : Progress} (hcalm : Calm g.parser.toChunkFields) :
    (consumeContentAsNextChunk g).2 = some () ∧
      Counted g (consumeContentAsNextChunk g).1
        (consumeContentAsNextChunk g).1.parser.bytesLastRead := by
  unfold consumeContentAsNextChunk
  dsimp only
  split
  · rename_i h
    exact ⟨rfl, ⟨[], rfl, h.symm⟩, by rw [h]; rfl⟩
  · split
    · rename_i k hk
      rw [deliver_noThrow (hcalm k hk)]
      exact ⟨rfl, ⟨g.unread, (List.append_nil _).symm, rfl⟩, rfl⟩
    · exact ⟨rfl, ⟨g.unread, (List.append_nil _).symm, rfl⟩, rfl⟩

/-! ## One call -/

/-- What the passes of a call on `buf` keep, where `n` bytes had been read before it. -/
structure Account (buf : Bytes) (n : Nat) (g : Progress) (t : Nat) (rc : Except Exn Tribool) :
    Prop where
  suffix : g.unread <:+ buf
  /-- The bytes of the call so far are in both counts. -/
  counted : rc = .ok .true ∨ rc = .ok .indeterminate →
    t + g.unread.length = buf.length ∧ g.parser.bytesTotalRead = n + t
  due : rc ≠ .ok .true → Due g.parser
  calm : Calm g.parser.toChunkFields

/-- A phase that has counted its bytes keeps the account. -/
theorem Counted.account {buf : Bytes} {n t k : Nat} {g g' : Progress} (h : Counted g g' k)
    (hg : Account buf n g t (.ok .indeterminate)) :
    g'.unread <:+ buf ∧ t + k + g'.unread.length = buf.length ∧
      g'.parser.bytesTotalRead = n + (t + k) := by
  obtain ⟨front, hfront, hlen⟩ := h.moved
  obtain ⟨hcount, htotal⟩ := hg.counted (Or.inr rfl)
  rw [hfront, List.length_append, hlen] at hcount
  refine ⟨(hfront ▸ List.suffix_append front g'.unread).trans hg.suffix, by omega, ?_⟩
  rw [h.total, htotal]
  omega

theorem finishHeaderParsing_counted (hook : Hook) (g : Progress) :
    (finishHeaderParsing x hook g).1.unread = g.unread ∧
      (finishHeaderParsing x hook g).1.parser.bytesTotalRead = g.parser.bytesTotalRead ∧
      (g.parser.messageParseState = .headers → Due (finishHeaderParsing x hook g).1.parser) := by
  rw [finishHeaderParsing_eq]
  split
  · refine ⟨rfl, rfl, ?_⟩
    intro hst hcontent
    exact absurd (hst.symm.trans hcontent) (by decide)
  · rename_i p m rc hd
    obtain ⟨hp, _⟩ := decideFraming_frame hd
    have htotal : p.bytesTotalRead = g.parser.bytesTotalRead := by rw [hp]; rfl
    have hdue : Due p := by
      intro hcontent
      rcases decideFraming_state hd with hst | ⟨_, hpos⟩ | hst
      · rw [hst] at hcontent; cases hcontent
      · exact hpos
      · rw [hst] at hcontent; cases hcontent
    split
    · exact ⟨rfl, htotal, fun _ => hdue⟩
    · exact ⟨rfl, htotal, fun _ => hdue⟩

theorem parseHeadersCase_account {buf : Bytes} {n t : Nat} {g : Progress} (hh : CalmHook hook)
    (hg : Account buf n g t (.ok .indeterminate)) (hst : g.parser.messageParseState ≠ .content) :
    Account buf n (parseHeadersCase x hook g t).1 (parseHeadersCase x hook g t).2.1
      (parseHeadersCase x hook g t).2.2 := by
  obtain ⟨hsuffix, hcounted⟩ := parseHeaders_counted (x := x) g
  obtain ⟨_, hchunk, hstate, _⟩ := parseHeaders_keeps (x := x) g
  have hcalm := (parseHeadersCase_spec x hook g t).calm hh hg.calm
  unfold parseHeadersCase at hcalm ⊢
  dsimp only at hcalm ⊢
  split
  · rename_i h
    rw [if_pos h] at hcalm
    obtain ⟨h1, h2, hdue⟩ := finishHeaderParsing_counted (x := x) hook (parseHeaders x g).1
    obtain ⟨hs, hl, ht⟩ := (hcounted (by rw [h.1]; decide)).account hg
    exact ⟨h1 ▸ hs, fun _ => ⟨h1 ▸ hl, h2 ▸ ht⟩, fun _ => hdue h.2, hcalm⟩
  · rename_i h
    rw [if_neg h] at hcalm
    refine ⟨hsuffix.trans hg.suffix, ?_, ?_, hcalm⟩
    · intro hrc
      have hne : (parseHeaders x g).2 ≠ .false := by
        intro he
        rw [he] at hrc
        rcases hrc with hrc | hrc <;> cases hrc
      exact ((hcounted hne).account hg).2
    · intro _ hcontent
      rw [hstate] at hcontent
      exact absurd hcontent hst

theorem parseChunks_state {g : Progress} (h : g.parser.messageParseState = .chunks) :
    (parseChunks g).1.parser.messageParseState ≠ .content := by
  have hne : g.parser.messageParseState ≠ .content := by
    rw [h]
    decide
  unfold parseChunks
  dsimp only
  split
  · exact hne
  · exact hne
  · exact fun hst => by cases hst
  · exact hne
  · exact hne

theorem parseChunksCase_account {buf : Bytes} {n t : Nat} {g : Progress}
    (hg : Account buf n g t (.ok .indeterminate)) (hst : g.parser.messageParseState = .chunks) :
    Account buf n (parseChunksCase g t).1 (parseChunksCase g t).2.1 (parseChunksCase g t).2.2 := by
  obtain ⟨hsuffix, hcounted⟩ := parseChunks_counted g
  have hcalm := (parseChunks_keeps g).2.1.calm hg.calm
  have hdue : Due (parseChunks g).1.parser := fun h => absurd h (parseChunks_state hst)
  unfold parseChunksCase
  dsimp only
  cases hrc : (parseChunks g).2 with
  | none =>
    refine ⟨hsuffix.trans hg.suffix, ?_, fun _ => hdue, hcalm⟩
    rintro (h | h) <;> cases h
  | some rc =>
    dsimp only
    split
    · rename_i h
      have hne : rc ≠ .false := by
        rw [h.1]
        decide
      obtain ⟨hs, hl⟩ := (hcounted rc hrc hne).account hg
      exact ⟨hs, fun _ => hl, fun _ => hdue, hcalm⟩
    · refine ⟨hsuffix.trans hg.suffix, ?_, fun _ => hdue, hcalm⟩
      intro h
      have hne : rc ≠ .false := by
        intro he
        rw [he] at h
        rcases h with h | h <;> cases h
      exact ((hcounted rc hrc hne).account hg).2

/-- **Every pass keeps the account.** -/
theorem parseSwitch_account {buf : Bytes} {n t : Nat} {g : Progress} (hh : CalmHook hook)
    (hg : Account buf n g t (.ok .indeterminate)) :
    Account buf n (parseSwitch x hook g t).1 (parseSwitch x hook g t).2.1
      (parseSwitch x hook g t).2.2 := by
  have hcalm := (parseSwitch_spec x hook g t).calm hh hg.calm
  cases hst : g.parser.messageParseState
  case start =>
    rw [parseSwitch_start hst]
    have hmoved : Account buf n
        { g with parser := { g.parser with messageParseState := .headers } } t (.ok .indeterminate) :=
      ⟨hg.suffix, hg.counted, fun _ h => (by cases h), hg.calm⟩
    exact parseHeadersCase_account hh hmoved (fun h => by cases h)
  case headers =>
    rw [parseSwitch_headers hst]
    exact parseHeadersCase_account hh hg (by rw [hst]; decide)
  case footers =>
    rw [parseSwitch_footers hst]
    exact parseHeadersCase_account hh hg (by rw [hst]; decide)
  case chunks =>
    rw [parseSwitch_chunks hst]
    exact parseChunksCase_account hg hst
  case content =>
    obtain ⟨rc, hrc, hcounted, hdue⟩ :=
      consumeContent_counted hg.calm (hg.due (by decide) hst)
    obtain ⟨hs, hl⟩ := hcounted.account hg
    rw [parseSwitch_content hst] at hcalm ⊢
    rw [hrc] at hcalm ⊢
    refine ⟨hs, fun _ => hl, ?_, hcalm⟩
    intro hne _
    exact hdue fun h => hne (congrArg Except.ok h)
  case contentNoLength =>
    obtain ⟨hrc, hcounted⟩ := consumeContentAsNextChunk_counted hg.calm
    obtain ⟨hs, hl⟩ := hcounted.account hg
    have hstate := consumeContentAsNextChunk_state g
    rw [parseSwitch_contentNoLength hst] at hcalm ⊢
    rw [hrc] at hcalm ⊢
    refine ⟨hs, fun _ => hl, ?_, hcalm⟩
    intro _ hcontent
    rw [hstate, hst] at hcontent
    cases hcontent
  case «end» =>
    rw [parseSwitch_end hst]
    exact ⟨hg.suffix, fun _ => hg.counted (Or.inr rfl), fun h => absurd rfl h, hg.calm⟩

/-- What a result is worth that left the account of its call. -/
theorem parseEnd_account {buf : Bytes} {n t : Nat} {g : Progress} {rc : Except Exn Tribool}
    (hg : Account buf n g t rc) :
    (parseEnd x g t rc).unread = g.unread ∧ Due (parseEnd x g t rc).parser ∧
      ((parseEnd x g t rc).rc = .ok .true ∨ (parseEnd x g t rc).rc = .ok .indeterminate →
        (parseEnd x g t rc).parser.bytesLastRead + g.unread.length = buf.length ∧
          (parseEnd x g t rc).parser.bytesTotalRead =
            n + (parseEnd x g t rc).parser.bytesLastRead) := by
  rcases rc with e | b
  · exact ⟨rfl, hg.due (fun h => by cases h), fun h => by rcases h with h | h <;> cases h⟩
  cases b with
  | false => exact ⟨rfl, hg.due (fun h => by cases h), fun h => by rcases h with h | h <;> cases h⟩
  | indeterminate => exact ⟨rfl, hg.due (fun h => by cases h), fun _ => hg.counted (Or.inr rfl)⟩
  | true =>
    unfold parseEnd
    dsimp only
    rcases finish x { g.parser with messageParseState := .end } g.msg with ⟨m, e⟩
    cases e with
    | none => exact ⟨rfl, fun h => (by cases h), fun _ => hg.counted (Or.inl rfl)⟩
    | some e => exact ⟨rfl, fun h => (by cases h), fun h => by rcases h with h | h <;> cases h⟩

/-- A parser that keeps accounts: it is not stuck in content, and its handler is calm. -/
structure KeepsAccounts (p : HttpParser) : Prop where
  due : Due p
  calm : Calm p.toChunkFields

theorem loop_account (hh : CalmHook hook) {p : HttpParser} (hp : KeepsAccounts p) (m : HttpRequest)
    (ec : Option ErrorValue) (buf : Bytes) :
    Account buf p.bytesTotalRead (parseLoop x hook 3 (opened p m ec buf) 0).1
      (parseLoop x hook 3 (opened p m ec buf) 0).2.1
      (parseLoop x hook 3 (opened p m ec buf) 0).2.2 := by
  refine parseLoop_invariant (fun g t hg => parseSwitch_account hh hg) 3 (opened p m ec buf) 0 ?_
  exact ⟨List.suffix_refl buf, fun _ => ⟨Nat.zero_add _, rfl⟩, fun _ => hp.due, hp.calm⟩

theorem parse_keepsAccounts (hh : CalmHook hook) {p : HttpParser} (hp : KeepsAccounts p) (m : HttpRequest)
    (ec : Option ErrorValue) (buf : Bytes) : KeepsAccounts (parse x hook p m ec buf).parser :=
  ⟨(parseEnd_account (loop_account hh hp m ec buf)).2.1, parse_calm hh hp.calm m ec buf⟩

theorem afterCalls_keepsAccounts {c : ParserSettings} (hc : ∀ k, c.payloadHandler = some k → NoThrow k)
    (sizeGarbage readGarbage : Nat) (m : HttpRequest) {calls : List ParseCall}
    (hcalls : ∀ call ∈ calls, CalmHook call.hook) :
    KeepsAccounts (afterCalls x (c.parser sizeGarbage readGarbage, m) calls).1 := by
  refine List.foldlRecOn (motive := fun s : HttpParser × HttpRequest => KeepsAccounts s.1) calls _
    ⟨fun h => (by cases h), hc⟩ ?_
  intro s hs call hcall
  exact parse_keepsAccounts (hcalls call hcall) hs s.2 call.ec call.buf

/-- **`parse` ends and accounts for every byte.** Behind any calls with handlers that do not
throw, the loop of the next call ends. What it leaves unread is the back of the buffer, and
nothing of it if the result is indeterminate; unless the call fails, both counters have grown
by what it has used up. -/
theorem parse_accounts (c : ParserSettings) (hc : ∀ k, c.payloadHandler = some k → NoThrow k)
    (sizeGarbage readGarbage : Nat) (m : HttpRequest) (calls : List ParseCall)
    (hcalls : ∀ call ∈ calls, CalmHook call.hook) (call : ParseCall) (hcall : CalmHook call.hook) :
    let s := afterCalls x (c.parser sizeGarbage readGarbage, m) calls
    let r := call.result x s
    (∃ g t rc, LoopEnds x call.hook (opened s.1 s.2 call.ec call.buf) 0 g t rc ∧
      r = parseEnd x g t rc) ∧
    ∃ moved, call.buf = moved ++ r.unread ∧
      (r.rc = .ok .true ∨ r.rc = .ok .indeterminate →
        r.parser.bytesLastRead = moved.length ∧
          r.parser.bytesTotalRead = s.1.bytesTotalRead + moved.length) ∧
      (r.rc = .ok .indeterminate → r.unread = []) := by
  intro s r
  have hs : KeepsAccounts s.1 := afterCalls_keepsAccounts hc sizeGarbage readGarbage m hcalls
  have hends := parseLoop_ends (x := x) call.hook 3 (opened s.1 s.2 call.ec call.buf) 0
    (by show passes s.1.messageParseState ≤ 3; cases s.1.messageParseState <;> decide)
  have haccount := loop_account (x := x) hcall hs s.2 call.ec call.buf
  rcases hr : parseLoop x call.hook 3 (opened s.1 s.2 call.ec call.buf) 0 with ⟨g, t, rc⟩
  rw [hr] at hends haccount
  dsimp only at hends haccount
  have hres : r = parseEnd x g t rc := parse_of_loop hr
  obtain ⟨hunread, _, hcount⟩ := parseEnd_account (x := x) haccount
  rw [← hres] at hunread hcount
  obtain ⟨moved, hmoved⟩ := haccount.suffix
  refine ⟨⟨g, t, rc, hends, hres⟩, moved, by rw [hunread, hmoved], ?_, parse_waits_empty⟩
  intro hrc
  obtain ⟨hlast, htotal⟩ := hcount hrc
  have hlen : moved.length + g.unread.length = call.buf.length := by
    rw [← hmoved, List.length_append]
  have hmove : r.parser.bytesLastRead = moved.length := by omega
  exact ⟨hmove, by rw [htotal, hmove]⟩

/-- The second of two reads, behind a request whose line has come with the first. -/
theorem parse_accounts_get :
    let calls : List ParseCall := [{ hook := noHook, buf := str "GET / HTTP/1.1\r\n" }]
    let call : ParseCall := { hook := noHook, buf := str "\r\nrest" }
    let s := afterCalls plainExternals ((({} : ParserSettings).parser 7 9), HttpRequest.fresh) calls
    let r := call.result plainExternals s
    s.1.bytesTotalRead = 16 ∧ r.unread = str "rest" ∧ r.parser.bytesLastRead = 2 ∧
      r.parser.bytesTotalRead = 18 := by
  intro calls call s r
  obtain ⟨_, moved, hmoved, hcount, _⟩ := parse_accounts (x := plainExternals) {}
    (fun _ h => by cases h) 7 9 HttpRequest.fresh calls
    (fun k hk => by rw [List.mem_singleton.mp hk]; exact noHook_calm) call noHook_calm
  have hrc : r.rc = .ok .true := by decide +kernel
  have hunread : r.unread = str "rest" := by decide +kernel
  have htotal : s.1.bytesTotalRead = 16 := by decide +kernel
  obtain ⟨hlast, hsum⟩ := hcount (Or.inl hrc)
  have hlen : moved.length = 2 := by
    have h := congrArg List.length hmoved
    rw [hunread, List.length_append] at h
    exact Nat.add_right_cancel h.symm
  exact ⟨htotal, hunread, by rw [hlast, hlen], by rw [hsum, htotal, hlen]⟩

end Pion.Proof
