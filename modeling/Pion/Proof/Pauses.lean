import Pion.Proof.Head

/-!
# Where a parse can pause

A parser that has used up its buffer without a result waits for the next one. `Pauses` says once
what a pass of the loop can have done that asks for more: it stays in the head, it completes the
head, or it takes a part of the body or of the trailers. What holds of a parser between two
buffers follows from that by induction, first on the passes, then on the buffers.
-/

namespace Pion.Proof

open Pion Lib

variable {x : Externals} {hook : Hook}

/-! ## What the head leaves in the dictionaries -/

/-- The dictionaries of a request: its headers, query pairs and cookies. -/
def dicts (m : HttpRequest) : Dict × Dict × Dict := (m.headers, m.queryParams, m.cookieParams)

/-- The dictionaries with the pairs of a query string and the cookies of the headers in them. -/
def recorded (x : Externals) (query : Bytes) (m : HttpRequest) : Dict × Dict × Dict :=
  (m.headers, (parseUrlEncoded x m.queryParams query).1,
    (m.headers.equalRange headerCookie).foldl (fun d v => (parseCookieHeader x d v false).1) m.cookieParams)

theorem updateMessage_dicts (p : HttpParser) (m : HttpRequest) :
    dicts (updateMessageWithHeaderData x p m) = recorded x p.queryString m := by
  unfold updateMessageWithHeaderData
  dsimp only
  split
  · rename_i h
    rw [h]
    rfl
  · rfl

theorem updateTransferEncoding_dicts (m : HttpRequest) :
    dicts { m with toHttpMessage := m.updateTransferEncodingUsingHeader } = dicts m := by
  unfold HttpMessage.updateTransferEncodingUsingHeader
  split <;> rfl

theorem dicts_eq_iff {m m' : HttpRequest} : dicts m = dicts m' ↔
    m.headers = m'.headers ∧ m.queryParams = m'.queryParams ∧ m.cookieParams = m'.cookieParams := by
  unfold dicts
  rw [Prod.mk.injEq, Prod.mk.injEq]

theorem recorded_congr {m m' : HttpRequest} (h : dicts m = dicts m') (query : Bytes) :
    recorded x query m = recorded x query m' := by
  obtain ⟨hheaders, hquery, hcookies⟩ := dicts_eq_iff.mp h
  unfold recorded
  rw [hheaders, hquery, hcookies]

theorem beforeFraming_dicts (p : HttpParser) (m : HttpRequest) :
    dicts (beforeFraming x p m).2 = recorded x p.queryString m := by
  unfold beforeFraming
  dsimp only
  rw [updateMessage_dicts]
  exact recorded_congr (updateTransferEncoding_dicts { m with contentLength := 0 }) _

theorem decideFraming_dicts {p p' : HttpParser} {m m' : HttpRequest} {rc : Tribool}
    (h : decideFraming x p m = some (p', m', rc)) :
    p'.toHeaderFields = p.toHeaderFields ∧ dicts m' = dicts m := by
  obtain ⟨hp, hm⟩ := decideFraming_frame h
  exact ⟨by rw [hp], by rw [hm]; rfl⟩

/-! ## One pass -/

/-- The states in front of the end of the head. -/
def Opening (st : MessageParseState) : Prop := st = .start ∨ st = .headers

instance : DecidablePred Opening := fun st => inferInstanceAs (Decidable (st = .start ∨ st = .headers))

/-- What a pass can have done that asks for more. -/
inductive Pauses (x : Externals) (g g' : Progress) : Prop where
  /-- The buffer ends inside the head. -/
  | head {s : HeaderState} (hopen : Opening g.parser.messageParseState)
      (hrun : (headerScanner x).run (g.parser.toHeaderFields, g.msg) g.unread = .more s)
      (hstate : g'.parser.messageParseState = .headers) (hfields : g'.parser.toHeaderFields = s.1)
      (hmsg : g'.msg = s.2) (hunread : g'.unread = [])
  /-- The head is complete. -/
  | behindHead {s : HeaderState} {rest : Bytes} (hopen : Opening g.parser.messageParseState)
      (hrun : (headerScanner x).run (g.parser.toHeaderFields, g.msg) g.unread = .stop none s rest)
      (hstate : g'.parser.messageParseState = .chunks ∨ g'.parser.messageParseState = .content ∨
        g'.parser.messageParseState = .end)
      (hfields : g'.parser.toHeaderFields = s.1) (hdicts : dicts g'.msg = recorded x s.1.queryString s.2)
  /-- A part of the body. -/
  | body (hbody : g.parser.messageParseState = .chunks ∨ g.parser.messageParseState = .content ∨
        g.parser.messageParseState = .contentNoLength)
      (hstate : g'.parser.messageParseState = g.parser.messageParseState)
      (hfields : g'.parser.toHeaderFields = g.parser.toHeaderFields) (hdicts : dicts g'.msg = dicts g.msg)
  /-- The last chunk, in front of trailers. -/
  | lastChunk (hchunks : g.parser.messageParseState = .chunks)
      (hstate : g'.parser.messageParseState = .footers)
      (hfields : g'.parser.toHeaderFields = { g.parser.toHeaderFields with headersParseState := .headerStart })
      (hdicts : dicts g'.msg = dicts g.msg)
  /-- The buffer ends inside the trailers. -/
  | trailers {s : HeaderState} (hfooters : g.parser.messageParseState = .footers)
      (hrun : (headerScanner x).run (g.parser.toHeaderFields, g.msg) g.unread = .more s)
      (hstate : g'.parser.messageParseState = .footers) (hfields : g'.parser.toHeaderFields = s.1)
      (hmsg : g'.msg = s.2)

theorem finishHeaderParsing_pauses {g g' : Progress}
    (h : finishHeaderParsing x hook g = (g', .ok .indeterminate)) :
    (g'.parser.messageParseState = .chunks ∨ g'.parser.messageParseState = .content ∨
        g'.parser.messageParseState = .end) ∧
      g'.parser.toHeaderFields = g.parser.toHeaderFields ∧
      dicts g'.msg = recorded x g.parser.queryString g.msg := by
  cases hd : decideFraming x (beforeFraming x g.parser g.msg).1 (beforeFraming x g.parser g.msg).2 with
  | none =>
    rw [finishHeaderParsing_eq] at h
    simp only [hd] at h
    cases h
  | some d =>
    obtain ⟨p, m, rc⟩ := d
    obtain ⟨hstate, _, _⟩ := decideFraming_cases hd
    obtain ⟨hfields, hdicts⟩ := decideFraming_dicts hd
    rw [beforeFraming_dicts] at hdicts
    rw [finishHeaderParsing_hook hd rfl] at h
    cases hhook : hook m g.ec rc with
    | error e =>
      rw [hhook] at h
      cases h
    | ok r =>
      rw [hhook] at h
      injection h with hg _
      rw [← hg]
      exact ⟨hstate, hfields, hdicts⟩

/-- A pass over the head or over the trailers. -/
theorem parseHeadersCase_pauses {g g' : Progress} {t t' : Nat}
    (h : parseHeadersCase x hook g t = (g', t', .ok .indeterminate)) :
    (∃ s, (headerScanner x).run (g.parser.toHeaderFields, g.msg) g.unread = .more s ∧
      g'.parser.messageParseState = g.parser.messageParseState ∧ g'.parser.toHeaderFields = s.1 ∧
      g'.msg = s.2 ∧ g'.unread = []) ∨
    ∃ s rest, (headerScanner x).run (g.parser.toHeaderFields, g.msg) g.unread = .stop none s rest ∧
      g.parser.messageParseState = .headers ∧
      (g'.parser.messageParseState = .chunks ∨ g'.parser.messageParseState = .content ∨
        g'.parser.messageParseState = .end) ∧
      g'.parser.toHeaderFields = s.1 ∧ dicts g'.msg = recorded x s.1.queryString s.2 := by
  cases hrun : (headerScanner x).run (g.parser.toHeaderFields, g.msg) g.unread with
  | more s =>
    rw [parseHeadersCase_more hrun] at h
    cases h
    exact Or.inl ⟨s, rfl, rfl, rfl, rfl, rfl⟩
  | stop r s rest =>
    cases r with
    | some e =>
      rw [parseHeadersCase_error hrun] at h
      cases h
    | none =>
      have hdone := parseHeaders_done hrun
      by_cases hst : g.parser.messageParseState = .headers
      · rw [parseHeadersCase_headers hdone hst] at h
        injection h with hg h
        injection h with _ hrc
        have hpause := finishHeaderParsing_pauses (Prod.ext hg hrc)
        exact Or.inr ⟨s, rest, rfl, hst, hpause⟩
      · unfold parseHeadersCase at h
        rw [hdone] at h
        dsimp only at h
        rw [if_neg fun hn => hst hn.2] at h
        cases h

theorem parseChunksCase_pauses {g g' : Progress} {t t' : Nat}
    (hst : g.parser.messageParseState = .chunks)
    (h : parseChunksCase g t = (g', t', .ok .indeterminate)) : Pauses x g g' := by
  cases hrun : chunkScanner.run (g.parser.toChunkFields, g.msg.chunkCache) g.unread with
  | more s =>
    unfold parseChunksCase parseChunks at h
    simp only [hrun] at h
    rw [if_neg fun hn => by cases hn.1] at h
    cases h
    exact .body (Or.inl hst) rfl rfl rfl
  | stop r s rest =>
    unfold parseChunksCase parseChunks at h
    simp only [hrun] at h
    cases r with
    | error e =>
      simp only at h
      rw [if_neg fun hn => by cases hn.1] at h
      cases h
    | threw => cases h
    | done =>
      simp only at h
      split at h
      · injection h with hg h
        injection h with _ hrc
        rw [if_neg fun hn => by cases hst.symm.trans hn] at hrc
        cases hrc
      · cases h
    | footers =>
      simp only at h
      split at h
      · cases h
        exact .lastChunk hst rfl rfl rfl
      · cases h

theorem consumeContent_dicts (g : Progress) :
    (consumeContent g).1.parser.toHeaderFields = g.parser.toHeaderFields ∧
      dicts (consumeContent g).1.msg = dicts g.msg := by
  unfold consumeContent
  dsimp only
  split
  · exact ⟨rfl, rfl⟩
  · split
    · split
      · exact ⟨rfl, rfl⟩
      · exact ⟨rfl, rfl⟩
    · exact ⟨rfl, by rw [storeContent_frame]; rfl⟩

theorem consumeContentAsNextChunk_dicts (g : Progress) :
    (consumeContentAsNextChunk g).1.parser.toHeaderFields = g.parser.toHeaderFields ∧
      dicts (consumeContentAsNextChunk g).1.msg = dicts g.msg := by
  unfold consumeContentAsNextChunk
  dsimp only
  split
  · exact ⟨rfl, rfl⟩
  · split
    · split
      · exact ⟨rfl, rfl⟩
      · exact ⟨rfl, rfl⟩
    · exact ⟨rfl, rfl⟩

/-- **What a pass that asks for more can have done.** -/
theorem parseSwitch_pauses {g g' : Progress} {t t' : Nat}
    (h : parseSwitch x hook g t = (g', t', .ok .indeterminate)) : Pauses x g g' := by
  cases hst : g.parser.messageParseState with
  | start =>
    rw [parseSwitch_start hst] at h
    rcases parseHeadersCase_pauses h with ⟨s, hrun, hstate, hfields, hmsg, hunread⟩ |
      ⟨s, rest, hrun, _, hstate, hfields, hdicts⟩
    · exact .head (Or.inl hst) hrun hstate hfields hmsg hunread
    · exact .behindHead (Or.inl hst) hrun hstate hfields hdicts
  | headers =>
    rw [parseSwitch_headers hst] at h
    rcases parseHeadersCase_pauses h with ⟨s, hrun, hstate, hfields, hmsg, hunread⟩ |
      ⟨s, rest, hrun, _, hstate, hfields, hdicts⟩
    · exact .head (Or.inr hst) hrun (hstate.trans hst) hfields hmsg hunread
    · exact .behindHead (Or.inr hst) hrun hstate hfields hdicts
  | footers =>
    rw [parseSwitch_footers hst] at h
    rcases parseHeadersCase_pauses h with ⟨s, hrun, hstate, hfields, hmsg, _⟩ | ⟨_, _, _, hne, _⟩
    · exact .trailers hst hrun (hstate.trans hst) hfields hmsg
    · cases hst.symm.trans hne
  | chunks =>
    rw [parseSwitch_chunks hst] at h
    exact parseChunksCase_pauses hst h
  | content =>
    obtain ⟨hfields, hdicts⟩ := consumeContent_dicts g
    have hstate := consumeContent_state g
    rw [parseSwitch_content hst] at h
    split at h
    · cases h
    · cases h
      exact .body (Or.inr (Or.inl hst)) hstate hfields hdicts
  | contentNoLength =>
    obtain ⟨hfields, hdicts⟩ := consumeContentAsNextChunk_dicts g
    have hstate := consumeContentAsNextChunk_state g
    rw [parseSwitch_contentNoLength hst] at h
    split at h
    · cases h
    · cases h
      exact .body (Or.inr (Or.inr hst)) hstate hfields hdicts
  | «end» =>
    rw [parseSwitch_end hst] at h
    cases h

/-- A pause inside the head: the pass has run the header loop, and that has used up the buffer. -/
theorem Pauses.inHead {g g' : Progress} (h : Pauses x g g') (hopen : Opening g'.parser.messageParseState) :
    Opening g.parser.messageParseState ∧
      (headerScanner x).run (g.parser.toHeaderFields, g.msg) g.unread =
        .more (g'.parser.toHeaderFields, g'.msg) ∧ g'.unread = [] := by
  have hne : ∀ st, ¬ Opening st → g'.parser.messageParseState ≠ st := by
    rintro st hst rfl
    exact hst hopen
  cases h with
  | head hopen hrun _ hfields hmsg hunread =>
    rw [hfields, hmsg]
    exact ⟨hopen, hrun, hunread⟩
  | behindHead _ _ hstate =>
    rcases hstate with h | h | h
    · exact absurd h (hne _ (by decide))
    · exact absurd h (hne _ (by decide))
    · exact absurd h (hne _ (by decide))
  | body hbody hstate =>
    rw [← hstate] at hbody
    rcases hbody with h | h | h
    · exact absurd h (hne _ (by decide))
    · exact absurd h (hne _ (by decide))
    · exact absurd h (hne _ (by decide))
  | lastChunk _ hstate => exact absurd hstate (hne _ (by decide))
  | trailers _ _ hstate => exact absurd hstate (hne _ (by decide))

/-! ## The loop, and buffer after buffer -/

/-- A loop that ends in a pause keeps what every pause keeps. -/
theorem parseLoop_pauses {P : Progress → Prop} (hkeep : ∀ g g', P g → Pauses x g g' → P g')
    (n : Nat) (g : Progress) (t : Nat) (hg : P g)
    (h : (parseLoop x hook n g t).2.2 = .ok .indeterminate) : P (parseLoop x hook n g t).1 := by
  refine parseLoop_invariant (Q := fun g _ rc => rc = .ok .indeterminate → P g) ?_ n g t (fun _ => hg) h
  intro g t hg hrc
  exact hkeep g _ (hg rfl) (parseSwitch_pauses (Prod.ext rfl (Prod.ext rfl hrc)))

/-- Between two buffers, a parser is where the loop has left it. -/
theorem parse_pauses {p : HttpParser} {m : HttpRequest} {ec : Option ErrorValue} {buf : Bytes}
    (h : (parse x hook p m ec buf).rc = .ok .indeterminate) :
    let r := parseLoop x hook 3 (opened p m ec buf) 0
    r.2.2 = .ok .indeterminate ∧
      parse x hook p m ec buf = parseEnd x r.1 r.2.1 (.ok .indeterminate) := by
  rcases hr : parseLoop x hook 3 (opened p m ec buf) 0 with ⟨g, t, rc⟩
  rw [parse_of_loop hr] at h ⊢
  obtain rfl := parseEnd_indeterminate h
  exact ⟨rfl, rfl⟩

/-- A parser that waits is what every buffer keeps it. -/
theorem feed_keeps {R : Bytes → HttpParser → HttpRequest → Prop}
    (hkeep : ∀ bytes p m ec buf, R bytes p m → (parse x hook p m ec buf).rc = .ok .indeterminate →
      R (bytes ++ buf) (parse x hook p m ec buf).parser (parse x hook p m ec buf).msg) :
    ∀ (bufs : List Bytes) (bytes : Bytes) (r : ParseResult), R bytes r.parser r.msg →
      (feed x hook r bufs).rc = .ok .indeterminate →
      R (bytes ++ bufs.flatten) (feed x hook r bufs).parser (feed x hook r bufs).msg := by
  intro bufs
  induction bufs with
  | nil =>
    intro bytes r hr _
    rw [List.flatten_nil, List.append_nil]
    exact hr
  | cons b bs ih =>
    intro bytes r hr h
    rw [feed] at h ⊢
    by_cases hrc : r.rc = .ok .indeterminate
    · rw [if_pos hrc] at h ⊢
      rw [List.flatten_cons, ← List.append_assoc]
      by_cases hnext : (parse x hook r.parser r.msg r.ec b).rc = .ok .indeterminate
      · exact ih (bytes ++ b) _ (hkeep bytes _ _ _ b hr hnext) h
      · -- a result is final
        cases bs with
        | nil => exact absurd h hnext
        | cons c cs =>
          rw [feed, if_neg hnext] at h
          exact absurd h hnext
    · rw [if_neg hrc] at h
      exact absurd h hrc

end Pion.Proof
