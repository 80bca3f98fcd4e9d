import Pion.Proof.Pauses

/-!
# Raw headers

With `save_raw_headers` on, the header loop records every byte that it looks at. Nearly always it
also uses the byte up. Only behind a lone CR or LF, where the other half of the line end may still
come, a byte that does not belong there ends the headers and is left for whoever reads next.
-/

namespace Pion.Proof

open Pion Lib

variable {x : Externals} {hook : Hook}

/-! ## One step of the header loop -/

/-- The header loop stands behind a lone CR or LF, and the next byte does not belong to that line end. -/
def LoneByte (st : HeaderParseState) (c : UInt8) : Prop :=
  st = .expectingFinalNewline ∧ c ≠ lf ∨ st = .expectingFinalCr ∧ c ≠ cr

/-- What a step does with the bytes that were recorded. -/
def RawPass (s : HeaderState) (c : UInt8) : HeaderAction → Prop
  | .take s' => s'.1.saveRawHeaders = s.1.saveRawHeaders ∧ s'.1.rawHeaders = s.1.rawHeaders
  | .stop r _ used => r = none → (used = false ↔ LoneByte s.1.headersParseState c)

theorem rawPass_error (s : HeaderState) (c : UInt8) (e : ErrorValue) : RawPass s c (headerError s e) :=
  fun h => by cases h

theorem rawPass_done {s : HeaderState} {c : UInt8} (hf : s.1.headersParseState ≠ .expectingFinalNewline)
    (hf' : s.1.headersParseState ≠ .expectingFinalCr) : RawPass s c (headerDone s) := by
  intro _
  unfold LoneByte
  simp [hf, hf']

theorem headerSwitch_raw (s : HeaderState) (c : UInt8) : RawPass s c (headerSwitch x s c) := by
  unfold headerSwitch expectVersionByte
  dsimp only
  cases hst : s.1.headersParseState <;> dsimp only
  case expectingFinalNewline =>
    intro _
    simp [LoneByte, hst]
  case expectingFinalCr =>
    intro _
    simp [LoneByte, hst]
  all_goals
    repeat' apply of_ite
    all_goals
      first
        | exact rawPass_error s c _
        | exact rawPass_done (by rw [hst]; decide) (by rw [hst]; decide)
        | exact ⟨rfl, rfl⟩

theorem headerStep_raw {s s' : HeaderState} {c : UInt8} {raw : Bytes} (hsave : s.1.saveRawHeaders = true)
    (hraw : s.1.rawHeaders = raw) (h : headerStep x s c = .take s') :
    s'.1.saveRawHeaders = true ∧ s'.1.rawHeaders = raw ++ [c] := by
  have hpass := headerSwitch_raw (x := x) (s.1.recordRaw [c], s.2) c
  unfold headerStep at h
  rw [h] at hpass
  obtain ⟨hsave', hraw'⟩ := hpass
  refine ⟨hsave'.trans hsave, hraw'.trans ?_⟩
  show (if s.1.saveRawHeaders then s.1.rawHeaders ++ [c] else s.1.rawHeaders) = raw ++ [c]
  rw [if_pos hsave, hraw]

theorem headerStep_done {s s' : HeaderState} {c : UInt8} {used : Bool}
    (h : headerStep x s c = .stop none s' used) : used = false ↔ LoneByte s.1.headersParseState c := by
  have hpass := headerSwitch_raw (x := x) (s.1.recordRaw [c], s.2) c
  unfold headerStep at h
  rw [h] at hpass
  exact hpass rfl

theorem headerStep_lone {s : HeaderState} {c : UInt8} (h : LoneByte s.1.headersParseState c) :
    headerStep x s c = .stop none (s.1.recordRaw [c], s.2) false := by
  have hstate : (s.1.recordRaw [c]).headersParseState = s.1.headersParseState := rfl
  unfold headerStep headerSwitch
  dsimp only
  rw [hstate]
  rcases h with ⟨hst, hc⟩ | ⟨hst, hc⟩
  · rw [hst]
    dsimp only
    rw [decide_eq_false hc]
  · rw [hst]
    dsimp only
    rw [decide_eq_false hc]

/-! ## The loop -/

/-- Somewhere in the stream, the header loop that starts in `s` comes to a byte that it leaves
unread behind a lone CR or LF. -/
def EndsBehindLoneByte (x : Externals) (s : HeaderState) (stream : Bytes) : Prop :=
  ∃ u c v t, stream = u ++ c :: v ∧ (headerScanner x).run s u = .more t ∧
    LoneByte t.1.headersParseState c

/-- A loop that waits for more has recorded what it has read. -/
theorem headerScanner_records {s t : HeaderState} {buf : Bytes} (hsave : s.1.saveRawHeaders = true)
    (h : (headerScanner x).run s buf = .more t) :
    t.1.saveRawHeaders = true ∧ t.1.rawHeaders = s.1.rawHeaders ++ buf := by
  refine Scanner.ofSymbols_more
    (R := fun t w => t.1.saveRawHeaders = true ∧ t.1.rawHeaders = s.1.rawHeaders ++ w)
    ?_ buf s t [] ⟨hsave, (List.append_nil _).symm⟩ h
  rintro t w c t' ⟨hsave, hraw⟩ htake
  rw [← List.append_assoc]
  exact headerStep_raw hsave hraw htake

/-- A loop that has come to the end of the headers has recorded the byte that ended them, too. -/
theorem stopped_raw {t s' : HeaderState} {c : UInt8} {used : Bool} (hsave : t.1.saveRawHeaders = true)
    (h : headerStep x t c = .stop none s' used) : s'.1.rawHeaders = t.1.rawHeaders ++ [c] := by
  rw [headerStep_stop h]
  exact if_pos hsave

/-- **What the loop records is what it uses up**, unless it ends behind a lone byte. -/
theorem headerScanner_raw {s s' : HeaderState} {buf rest : Bytes} (hsave : s.1.saveRawHeaders = true)
    (h : (headerScanner x).run s buf = .stop none s' rest) :
    ∃ consumed, consumed ++ rest = buf ∧
      (s'.1.rawHeaders = s.1.rawHeaders ++ consumed ↔ ¬ EndsBehindLoneByte x s buf) := by
  obtain ⟨u, c, v, t, used, rfl, hmore, hstop, hrest⟩ := Scanner.ofSymbols_stopped buf h
  obtain ⟨hsave', hraw⟩ := headerScanner_records hsave hmore
  have hrecorded := stopped_raw hsave' hstop
  rw [hraw] at hrecorded
  have hused := headerStep_done hstop
  cases used with
  | false =>
    -- the byte `c` is recorded, and it is unread
    refine ⟨u, by rw [hrest]; rfl, fun heq => ?_, fun hnot => ?_⟩
    · rw [hrecorded] at heq
      have hlen := congrArg List.length heq
      rw [List.length_append, List.length_singleton] at hlen
      omega
    · exact absurd ⟨u, c, v, t, rfl, hmore, hused.mp rfl⟩ hnot
  | true =>
    refine ⟨u ++ [c], by rw [hrest, List.append_assoc]; rfl, fun _ => ?_, fun _ => ?_⟩
    · rintro ⟨u', c', v', t', heq, hmore', hlone⟩
      -- the loop would have stopped in front of `c'`, with as many bytes recorded
      have hstop' := headerStep_lone (x := x) hlone
      obtain ⟨hsave₁, hraw₁⟩ := headerScanner_records hsave hmore'
      have hrun : (headerScanner x).run s (u' ++ c' :: v') =
          .stop none (t'.1.recordRaw [c'], t'.2) (c' :: v') := by
        rw [headerScanner_append, hmore']
        exact Scanner.ofSymbols_stop hstop'
      rw [← heq, h] at hrun
      injection hrun with _ hs hrest'
      have hrecorded' := stopped_raw hsave₁ hstop'
      rw [← hs, hrecorded, hraw₁, List.append_assoc, List.append_assoc] at hrecorded'
      have hlast : u ++ [c] = u' ++ [c'] := List.append_cancel_left hrecorded'
      have hlen := congrArg List.length heq
      have hlen' := congrArg List.length hlast
      have hlen₁ := congrArg List.length (hrest.symm.trans hrest')
      simp only [if_true, List.length_append, List.length_cons, List.length_nil] at hlen hlen' hlen₁
      omega
    · rw [hrecorded, List.append_assoc]

/-! ## The parser, buffer after buffer -/

/-- As long as the parser is in the head, all it has done is run the header loop. -/
def InHeaders (x : Externals) (s : HeaderState) (bytes : Bytes) (p : HttpParser) (m : HttpRequest) :
    Prop :=
  Opening p.messageParseState →
    (headerScanner x).run s bytes = .more (p.toHeaderFields, noteMissingPackets m)

/-- A loop that ends in the head has made one pass, and not left it. -/
theorem parseLoop_opening {n : Nat} {g : Progress} {t : Nat}
    (hrc : (parseLoop x hook (n + 1) g t).2.2 = .ok .indeterminate)
    (hopen : Opening (parseLoop x hook (n + 1) g t).1.parser.messageParseState) :
    Opening g.parser.messageParseState ∧
      (headerScanner x).run (g.parser.toHeaderFields, g.msg) g.unread =
        .more ((parseLoop x hook (n + 1) g t).1.parser.toHeaderFields,
          (parseLoop x hook (n + 1) g t).1.msg) := by
  rcases hr : parseSwitch x hook g t with ⟨g', t', rc⟩
  by_cases hpass : rc = .ok .indeterminate
  · subst hpass
    have hpause := parseSwitch_pauses hr
    by_cases hunread : g'.unread = []
    · rw [parseLoop_waiting hr hunread] at hopen ⊢
      obtain ⟨hfirst, hrun, _⟩ := hpause.inHead hopen
      exact ⟨hfirst, hrun⟩
    · -- the first pass has left the head, and no other one comes back
      rw [parseLoop_next hr hunread] at hrc hopen
      have hleft := parseLoop_pauses (P := fun g => ¬ Opening g.parser.messageParseState)
        (fun _ _ hnot hnext hn => hnot (hnext.inHead hn).1) n g' t'
        (fun hn => hunread (hpause.inHead hn).2.2) hrc
      exact absurd hopen hleft
  · rw [parseLoop_done hr hpass] at hrc
    exact absurd hrc hpass

theorem inHeaders_parse {s : HeaderState} {bytes : Bytes} {p : HttpParser} {m : HttpRequest}
    {ec : Option ErrorValue} {buf : Bytes} (h : InHeaders x s bytes p m)
    (hrc : (parse x hook p m ec buf).rc = .ok .indeterminate) :
    InHeaders x s (bytes ++ buf) (parse x hook p m ec buf).parser (parse x hook p m ec buf).msg := by
  obtain ⟨hloop, hparse⟩ := parse_pauses hrc
  rw [hparse]
  intro hopen
  obtain ⟨hfirst, hrun⟩ := parseLoop_opening hloop hopen
  have hnote := noteMissingPackets_note (headerScanner_more_frame hrun).missing_eq
  rw [headerScanner_append, h hfirst]
  show (headerScanner x).run _ buf = .more (_, noteMissingPackets (parseLoop x hook 3 (opened p m ec buf) 0).1.msg)
  rw [hnote]
  exact hrun

/-! ## At the end of the headers -/

/-- How `parse_headers` is called, inside the head, for the next buffer. -/
def headCall (r : ParseResult) (buf : Bytes) : Progress :=
  { opened r.parser r.msg r.ec buf with parser := { r.parser with messageParseState := .headers } }

/-- So it is called in the first pass of `parse`. -/
theorem parseSwitch_headCall (x : Externals) (hook : Hook) {r : ParseResult}
    (hopen : Opening r.parser.messageParseState) (buf : Bytes) (t : Nat) :
    parseSwitch x hook (opened r.parser r.msg r.ec buf) t = parseHeadersCase x hook (headCall r buf) t :=
  parseSwitch_opening x hook _ _ buf hopen t

/-- The parser has been fed some buffers, is in the head, and `parse_headers` returns true for the
next buffer. -/
structure CompletesHead (x : Externals) (hook : Hook) (p : HttpParser) (m : HttpRequest)
    (bufs : List Bytes) (buf : Bytes) (g : Progress) : Prop where
  waits : (feed x hook (waitingWith p m none) bufs).rc = .ok .indeterminate
  opening : Opening (feed x hook (waitingWith p m none) bufs).parser.messageParseState
  done : parseHeaders x (headCall (feed x hook (waitingWith p m none) bufs) buf) = (g, .true)

theorem parseHeaders_true {g g' : Progress} (h : parseHeaders x g = (g', .true)) :
    ∃ s, (headerScanner x).run (g.parser.toHeaderFields, g.msg) g.unread = .stop none s g'.unread ∧
      g'.parser.toHeaderFields = s.1 := by
  cases hrun : (headerScanner x).run (g.parser.toHeaderFields, g.msg) g.unread with
  | more s =>
    unfold parseHeaders at h
    simp only [hrun] at h
    cases h
  | stop r s rest =>
    cases r with
    | some e =>
      unfold parseHeaders at h
      simp only [hrun] at h
      cases h
    | none =>
      rw [parseHeaders_done hrun] at h
      cases h
      exact ⟨s, rfl, rfl⟩

/-- **Raw headers are what the head has used up**, for every stream and its buffers, unless the head
ends behind a lone byte. -/
theorem rawHeaders_exact_iff (x : Externals) (hook : Hook) (p : HttpParser) (m : HttpRequest)
    (hsave : p.saveRawHeaders = true) (hraw : p.rawHeaders = []) (bufs : List Bytes) (buf : Bytes)
    (g : Progress) (h : CompletesHead x hook p m bufs buf g) :
    ∃ consumed, consumed ++ g.unread = bufs.flatten ++ buf ∧
      (g.parser.rawHeaders = consumed ↔
        ¬ EndsBehindLoneByte x (p.toHeaderFields, noteMissingPackets m) (bufs.flatten ++ buf)) := by
  have hstart : InHeaders x (p.toHeaderFields, noteMissingPackets m) [] p m := fun _ => Scanner.run_nil _ _
  have hfed := feed_keeps (fun _ _ _ _ _ => inHeaders_parse) bufs [] (waitingWith p m none) hstart h.waits
  obtain ⟨s, hrun, hfields⟩ := parseHeaders_true h.done
  have hwhole : (headerScanner x).run (p.toHeaderFields, noteMissingPackets m) (bufs.flatten ++ buf) =
      .stop none s g.unread := by
    rw [headerScanner_append, ← List.nil_append bufs.flatten, hfed h.opening]
    exact hrun
  obtain ⟨consumed, hsplit, hiff⟩ := headerScanner_raw hsave hwhole
  refine ⟨consumed, hsplit, ?_⟩
  rw [hraw, List.nil_append] at hiff
  rw [hfields]
  exact hiff

/-- A new parser that saves raw headers. -/
def savingParser : HttpParser := { HttpParser.fresh 100 0 0 with saveRawHeaders := true }

/-- `parse_headers` of that parser, on a buffer that begins a stream. -/
def savingHead (buf : Bytes) : Progress :=
  (parseHeaders plainExternals (headCall (waitingWith savingParser HttpRequest.fresh none) buf)).1

theorem rawHeaders_exact_get :
    let r := feed plainExternals noHook (waitingWith savingParser HttpRequest.fresh none) [str "GET / HT", str "TP/1.1\r\n\n"]
    let g := (parseHeaders plainExternals (headCall r (str "\rX"))).1
    ∃ consumed, consumed ++ g.unread = [str "GET / HT", str "TP/1.1\r\n\n"].flatten ++ str "\rX" ∧
      (g.parser.rawHeaders = consumed ↔ ¬ EndsBehindLoneByte plainExternals
        (savingParser.toHeaderFields, noteMissingPackets HttpRequest.fresh)
        ([str "GET / HT", str "TP/1.1\r\n\n"].flatten ++ str "\rX")) :=
  rawHeaders_exact_iff plainExternals noHook savingParser HttpRequest.fresh rfl rfl _ _ _
    ⟨by decide +kernel, by decide +kernel, Prod.ext rfl (by decide +kernel)⟩

/-- The byte behind a lone CR is both in the raw headers and unread. -/
theorem rawHeaders_not_exact :
    let buf := str "GET / HTTP/1.1\r\n\rX"
    CompletesHead plainExternals noHook savingParser HttpRequest.fresh [] buf (savingHead buf) ∧
      ¬ ∃ consumed, consumed ++ (savingHead buf).unread = buf ∧
        (savingHead buf).parser.rawHeaders = consumed := by
  have hunread : (savingHead (str "GET / HTTP/1.1\r\n\rX")).unread = str "X" := by decide +kernel
  have hraw : (savingHead (str "GET / HTTP/1.1\r\n\rX")).parser.rawHeaders =
      str "GET / HTTP/1.1\r\n\rX" := by decide +kernel
  refine ⟨⟨rfl, Or.inl rfl, Prod.ext rfl (by decide +kernel)⟩, ?_⟩
  rintro ⟨consumed, hsplit, rfl⟩
  rw [hunread, hraw] at hsplit
  exact absurd hsplit (by decide)

end Pion.Proof
