import Pion.Proof.Pauses

/-!
# What `finish` records

A request that is cut off is finished where it stands. Its query pairs and cookies are to be in the
dictionaries by then, each as often as the request has it. `update_message_with_header_data` puts
them there at the end of the head; and `finish` calls it again if the parser is inside headers,
which are those of the head or those behind the last chunk.
-/

namespace Pion.Proof

open Pion Lib

variable {x : Externals} {hook : Hook}

/-! ## The header loop behind the request line -/

/-- The states of the header loop behind the request line. -/
def PastLine : HeaderParseState → Prop
  | .expectingNewline | .expectingCr | .headerWhitespace | .headerStart | .headerName
  | .spaceBeforeHeaderValue | .headerValue | .expectingFinalNewline | .expectingFinalCr => True
  | _ => False

/-- Behind the request line, a step stays there and leaves the query string alone. -/
def LinePass (s : HeaderState) : HeaderAction → Prop
  | .take s' => PastLine s'.1.headersParseState ∧ s'.1.queryString = s.1.queryString
  | .stop _ _ _ => True

theorem headerSwitch_line {s : HeaderState} (h : PastLine s.1.headersParseState) (c : UInt8) :
    LinePass s (headerSwitch x s c) := by
  unfold headerSwitch startHeaderName
  dsimp only
  cases hst : s.1.headersParseState <;> rw [hst] at h <;> dsimp only
  all_goals
    first
    | exact h.elim
    | repeat' apply of_ite
      all_goals
        first
        | exact trivial
        | exact ⟨trivial, rfl⟩
        | exact ⟨hst ▸ trivial, rfl⟩

theorem headerScanner_line {s t : HeaderState} {buf : Bytes} (h : PastLine s.1.headersParseState)
    (hrun : (headerScanner x).run s buf = .more t) :
    PastLine t.1.headersParseState ∧ t.1.queryString = s.1.queryString := by
  refine (headerScanner x).more_keeps
    (P := fun t => PastLine t.1.headersParseState ∧ t.1.queryString = s.1.queryString)
    ?_ buf s t ⟨h, rfl⟩ hrun
  rintro t c cs t' rest ⟨hline, hquery⟩ hstep
  have htake := headerScanner_next hstep
  have hpass := headerSwitch_line (x := x) (s := (t.1.recordRaw [c], t.2)) hline c
  unfold headerStep at htake
  rw [htake] at hpass
  exact ⟨hpass.1, hpass.2.trans hquery⟩

/-! ## Between two buffers -/

/-- What `update_message_with_header_data` adds. -/
theorem recorded_base (query : Bytes) (m : HttpRequest) :
    (recorded x query m).2.1.Perm (queryEntries x query ++ m.queryParams) ∧
      (recorded x query m).2.2.Perm (cookieEntries x m.headers ++ m.cookieParams) :=
  ⟨parseUrlEncoded_base m.queryParams query, parseCookieHeaders_base _ m.cookieParams⟩

/-- The dictionaries between two buffers: empty inside the head, and what the head has behind it. -/
structure Recorded (x : Externals) (p : HttpParser) (m : HttpRequest) : Prop where
  start : p.messageParseState = .start → p.queryString = [] ∧ m.headers = []
  opening : Opening p.messageParseState → m.queryParams = [] ∧ m.cookieParams = []
  query : ¬ Opening p.messageParseState → m.queryParams.Perm (queryEntries x p.queryString)
  cookies : ¬ Opening p.messageParseState → p.messageParseState ≠ .footers →
    m.cookieParams.Perm (cookieEntries x m.headers)
  line : p.messageParseState = .footers → PastLine p.headersParseState

theorem HeaderFrame.params {m m' : HttpRequest} (h : HeaderFrame m m') :
    m'.queryParams = m.queryParams ∧ m'.cookieParams = m.cookieParams := by
  rw [h]
  exact ⟨rfl, rfl⟩

theorem recorded_behindHead {g g' : Progress} (h : Recorded x g.parser g.msg) {s : HeaderState}
    {rest : Bytes} (hopen : Opening g.parser.messageParseState)
    (hrun : (headerScanner x).run (g.parser.toHeaderFields, g.msg) g.unread = .stop none s rest)
    (hstate : g'.parser.messageParseState ≠ .start ∧ g'.parser.messageParseState ≠ .headers ∧
      g'.parser.messageParseState ≠ .footers)
    (hfields : g'.parser.toHeaderFields = s.1)
    (hdicts : dicts g'.msg = recorded x s.1.queryString s.2) : Recorded x g'.parser g'.msg := by
  obtain ⟨hstart, hheaders, hfooters⟩ := hstate
  obtain ⟨hquery, hcookies⟩ := h.opening hopen
  obtain ⟨hquery', hcookies'⟩ := (headerScanner_stop_frame hrun).params
  obtain ⟨hq, hc⟩ := recorded_base (x := x) s.1.queryString s.2
  rw [← hdicts, hquery'.trans hquery, List.append_nil] at hq
  rw [← hdicts, hcookies'.trans hcookies, List.append_nil] at hc
  have hnames : g'.msg.headers = s.2.headers := congrArg Prod.fst hdicts
  refine ⟨fun hn => absurd hn hstart, fun hn => (hn.elim hstart hheaders).elim, fun _ => ?_,
    fun _ _ => ?_, fun hn => absurd hn hfooters⟩
  · rw [hfields]
    exact hq
  · rw [hnames]
    exact hc

/-- **One pass keeps the dictionaries right.** -/
theorem recorded_pauses {g g' : Progress} (h : Recorded x g.parser g.msg) (hpause : Pauses x g g') :
    Recorded x g'.parser g'.msg := by
  cases hpause with
  | head hopen hrun hstate hfields hmsg _ =>
    obtain ⟨hquery, hcookies⟩ := (headerScanner_more_frame hrun).params
    obtain ⟨hquery', hcookies'⟩ := h.opening hopen
    have hopen' : Opening g'.parser.messageParseState := Or.inr hstate
    refine ⟨fun hn => (by cases hstate.symm.trans hn), fun _ => ?_, fun hn => absurd hopen' hn,
      fun hn => absurd hopen' hn, fun hn => (by cases hstate.symm.trans hn)⟩
    rw [hmsg]
    exact ⟨hquery.trans hquery', hcookies.trans hcookies'⟩
  | behindHead hopen hrun hstate hfields hdicts =>
    refine recorded_behindHead h hopen hrun ?_ hfields hdicts
    rcases hstate with hst | hst | hst
    · rw [hst]; decide
    · rw [hst]; decide
    · rw [hst]; decide
  | body hbody hstate hfields hdicts =>
    obtain ⟨hheaders, hquery, hcookies⟩ := dicts_eq_iff.mp hdicts
    have hst : g.parser.messageParseState ≠ .start ∧ ¬ Opening g.parser.messageParseState ∧
        g.parser.messageParseState ≠ .footers := by
      rcases hbody with hst | hst | hst
      · rw [hst]; decide
      · rw [hst]; decide
      · rw [hst]; decide
    obtain ⟨hstart, hnot, hfooters⟩ := hst
    rw [← hstate] at hstart hnot hfooters
    refine ⟨fun hn => absurd hn hstart, fun hn => absurd hn hnot, fun _ => ?_, fun _ _ => ?_,
      fun hn => absurd hn hfooters⟩
    · rw [hquery, hfields]
      exact h.query (hstate ▸ hnot)
    · rw [hcookies, hheaders]
      exact h.cookies (hstate ▸ hnot) (hstate ▸ hfooters)
  | lastChunk hchunks hstate hfields hdicts =>
    obtain ⟨_, hquery, _⟩ := dicts_eq_iff.mp hdicts
    have hnot : ¬ Opening g'.parser.messageParseState := by rw [hstate]; decide
    refine ⟨fun hn => (by cases hstate.symm.trans hn), fun hn => absurd hn hnot, fun _ => ?_,
      fun _ hn => absurd hstate hn, fun _ => ?_⟩
    · rw [hquery, hfields]
      exact h.query (by rw [hchunks]; decide)
    · rw [hfields]
      trivial
  | trailers hfooters hrun hstate hfields hmsg =>
    have hnot : ¬ Opening g'.parser.messageParseState := by rw [hstate]; decide
    obtain ⟨hline, hquery⟩ := headerScanner_line (h.line hfooters) hrun
    obtain ⟨hparams, _⟩ := (headerScanner_more_frame hrun).params
    refine ⟨fun hn => (by cases hstate.symm.trans hn), fun hn => absurd hn hnot, fun _ => ?_,
      fun _ hn => absurd hstate hn, fun _ => ?_⟩
    · rw [hmsg, hparams, hfields, hquery]
      exact h.query (by rw [hfooters]; decide)
    · rw [hfields]
      exact hline

theorem noteMissingPackets_dicts (m : HttpRequest) : dicts (noteMissingPackets m) = dicts m := by
  rw [noteMissingPackets_frame]
  rfl

theorem Recorded.congr {p : HttpParser} {m m' : HttpRequest} (h : Recorded x p m)
    (hdicts : dicts m' = dicts m) : Recorded x p m' := by
  obtain ⟨hheaders, hquery, hcookies⟩ := dicts_eq_iff.mp hdicts
  obtain ⟨h1, h2, h3, h4, h5⟩ := h
  rw [← hheaders] at h1 h4
  rw [← hquery] at h2 h3
  rw [← hcookies] at h2 h4
  exact ⟨h1, h2, h3, h4, h5⟩

theorem recorded_parse {p : HttpParser} {m : HttpRequest} {ec : Option ErrorValue} {buf : Bytes}
    (h : Recorded x p m) (hrc : (parse x hook p m ec buf).rc = .ok .indeterminate) :
    Recorded x (parse x hook p m ec buf).parser (parse x hook p m ec buf).msg := by
  obtain ⟨hloop, hparse⟩ := parse_pauses hrc
  have hend := parseLoop_pauses (P := fun g => Recorded x g.parser g.msg)
    (fun _ _ hg hpause => recorded_pauses hg hpause) 3 (opened p m ec buf) 0
    (h.congr (noteMissingPackets_dicts m)) hloop
  rw [hparse]
  exact ⟨hend.start, hend.opening, hend.query, hend.cookies, hend.line⟩

/-- **Whatever a parser has been fed, the dictionaries are right** when it waits for more. -/
theorem recorded_feed {p : HttpParser} {m : HttpRequest} (h : Recorded x p m) (bufs : List Bytes)
    (hrc : (feed x hook (waitingWith p m none) bufs).rc = .ok .indeterminate) :
    Recorded x (feed x hook (waitingWith p m none) bufs).parser
      (feed x hook (waitingWith p m none) bufs).msg :=
  feed_keeps (R := fun _ p m => Recorded x p m) (fun _ _ _ _ _ hr hrc => recorded_parse hr hrc)
    bufs [] (waitingWith p m none) h hrc

/-! ## The end -/

/-- What `finish` does last: the status, and the pairs of a posted form whose content was kept. -/
def conclusion (x : Externals) (p : HttpParser) (m : HttpRequest) : HttpRequest :=
  if p.payloadHandler.isNone ∧ !p.parseHeadersOnly then
    (parsePostContent x (computeMsgStatus m m.isValid)).1
  else computeMsgStatus m m.isValid

/-- The pairs of a posted form whose content was kept. -/
def postedEntries (x : Externals) (p : HttpParser) (m : HttpRequest) : Dict :=
  if p.payloadHandler.isNone ∧ !p.parseHeadersOnly then
    (parsePostContent x { m with queryParams := [] }).1.queryParams
  else []

theorem parsePostContent_base (m : HttpRequest) :
    (parsePostContent x m).1.queryParams.Perm
      ((parsePostContent x { m with queryParams := [] }).1.queryParams ++ m.queryParams) := by
  unfold parsePostContent
  dsimp only
  split
  · exact parseUrlEncoded_base m.queryParams m.content
  · split
    · exact (parseMultipartFormData_base m.queryParams _ m.content).2
    · exact List.Perm.refl _

/-- Without content there is no form. -/
theorem parsePostContent_empty {m : HttpRequest} (h : m.content = []) :
    (parsePostContent x m).1.queryParams = m.queryParams := by
  unfold parsePostContent parseUrlEncoded parseMultipartFormData
  dsimp only
  rw [h]
  split
  · rfl
  · split <;> rfl

theorem conclusion_dicts (x : Externals) (p : HttpParser) (m : HttpRequest) :
    (conclusion x p m).headers = m.headers ∧ (conclusion x p m).cookieParams = m.cookieParams ∧
      (conclusion x p m).queryParams.Perm
        (m.queryParams ++ postedEntries x p (conclusion x p m)) := by
  unfold conclusion postedEntries
  split
  · have hframe := parsePostContent_frame (x := x) (computeMsgStatus m m.isValid)
    have hbase := parsePostContent_base (x := x) (computeMsgStatus m m.isValid)
    have hsame : ({ (parsePostContent x (computeMsgStatus m m.isValid)).1 with queryParams := [] } : HttpRequest) =
        { computeMsgStatus m m.isValid with queryParams := [] } := by
      rw [hframe]
    rw [hsame]
    refine ⟨by rw [hframe]; rfl, by rw [hframe]; rfl, hbase.trans List.perm_append_comm⟩
  · exact ⟨rfl, rfl, by rw [List.append_nil]; exact List.Perm.refl _⟩

/-- Inside headers, `finish` looks at them first. -/
theorem finish_headers {p : HttpParser} (m : HttpRequest)
    (hst : p.messageParseState = .headers ∨ p.messageParseState = .footers) :
    ∃ m', (finish x p m).1 = conclusion x p m' ∧ dicts m' = recorded x p.queryString m := by
  refine ⟨{ updateMessageWithHeaderData x p { m with isValid := false } with
    contentLength := 0, contentBuf := [] }, ?_, updateMessage_dicts p { m with isValid := false }⟩
  unfold finish conclusion
  rcases hst with hst | hst
  · rw [hst]
    dsimp only
    split <;> rfl
  · rw [hst]
    dsimp only
    split <;> rfl

/-- Behind the head, it leaves the dictionaries to the form. -/
theorem finish_body {p : HttpParser} (m : HttpRequest) (hopen : ¬ Opening p.messageParseState)
    (hst : p.messageParseState ≠ .footers) :
    ∃ m', (finish x p m).1 = conclusion x p m' ∧ dicts m' = dicts m := by
  have hconclude : ∀ m', (if p.payloadHandler.isNone ∧ !p.parseHeadersOnly then
      parsePostContent x (computeMsgStatus m' m'.isValid) else (computeMsgStatus m' m'.isValid, none)).1 =
        conclusion x p m' := by
    intro m'
    unfold conclusion
    split <;> rfl
  unfold finish
  cases hstate : p.messageParseState with
  | start => exact absurd (Or.inl hstate) hopen
  | headers => exact absurd (Or.inr hstate) hopen
  | footers => exact absurd hstate hst
  | «end» => exact ⟨_, hconclude _, rfl⟩
  | content =>
    refine ⟨_, hconclude _, ?_⟩
    split <;> rfl
  | chunks =>
    refine ⟨_, hconclude _, ?_⟩
    split <;> rfl
  | contentNoLength =>
    refine ⟨_, hconclude _, ?_⟩
    split <;> rfl

/-- `finish` leaves each query pair and each cookie in the dictionaries as often as the request has
it, so far; a query pair may come from the URI or from a posted form. -/
def RecordsOnce (x : Externals) (p : HttpParser) (m : HttpRequest) : Prop :=
  (finish x p m).1.queryParams.Perm
      (queryEntries x p.queryString ++ postedEntries x p (finish x p m).1) ∧
    (finish x p m).1.cookieParams.Perm (cookieEntries x (finish x p m).1.headers)

instance (p : HttpParser) (m : HttpRequest) : Decidable (RecordsOnce x p m) :=
  inferInstanceAs (Decidable (_ ∧ _))

/-- Entries that are too many stay too many. -/
theorem append_perm_iff (d extra : Dict) : (d ++ extra).Perm d ↔ extra = [] := by
  constructor
  · intro h
    have hlen := h.length_eq
    rw [List.length_append] at hlen
    exact List.eq_nil_of_length_eq_zero (by omega)
  · rintro rfl
    rw [List.append_nil]

/-- What is in the dictionaries already, in front of the last step, is too many. -/
theorem conclusion_once {p : HttpParser} {m m' : HttpRequest} (hfinish : (finish x p m).1 = conclusion x p m')
    {pairs cookies : Dict} (hquery : m'.queryParams.Perm (queryEntries x p.queryString ++ pairs))
    (hcookies : m'.cookieParams.Perm (cookieEntries x m'.headers ++ cookies)) :
    RecordsOnce x p m ↔ pairs = [] ∧ cookies = [] := by
  obtain ⟨hheaders, hcookie, hparams⟩ := conclusion_dicts x p m'
  unfold RecordsOnce
  rw [hfinish, hheaders, hcookie]
  refine and_congr ?_ ?_
  · -- the pairs of a form do not matter
    have hall := hparams.trans (hquery.append_right _)
    refine Iff.trans ?_ (append_perm_iff (queryEntries x p.queryString) pairs)
    refine Iff.trans ?_ (List.perm_append_right_iff (postedEntries x p (conclusion x p m')))
    exact ⟨fun h => hall.symm.trans h, fun h => hall.trans h⟩
  · rw [← append_perm_iff (cookieEntries x m'.headers) cookies]
    exact ⟨fun h => hcookies.symm.trans h, fun h => hcookies.trans h⟩

/-- In front of the first byte there is nothing to record. -/
theorem recordsOnce_start {p : HttpParser} {m : HttpRequest} (h : Recorded x p m)
    (hst : p.messageParseState = .start) : RecordsOnce x p m := by
  obtain ⟨hquery, hheaders⟩ := h.start hst
  obtain ⟨hparams, hcookies⟩ := h.opening (Or.inl hst)
  have hfinish : (finish x p m).1 = { m with isValid := false, contentLength := 0, contentBuf := [] } := by
    unfold finish
    rw [hst]
  have hposted : postedEntries x p (finish x p m).1 = [] := by
    unfold postedEntries
    split
    · rw [parsePostContent_empty]
      rw [hfinish]
      rfl
    · rfl
  unfold RecordsOnce
  rw [hposted, hfinish, hquery]
  show m.queryParams.Perm [] ∧ m.cookieParams.Perm (cookieEntries x m.headers)
  rw [hparams, hcookies, hheaders]
  exact ⟨List.Perm.refl _, List.Perm.refl _⟩

theorem recordsOnce_iff {p : HttpParser} {m : HttpRequest} (h : Recorded x p m) :
    RecordsOnce x p m ↔
      (p.messageParseState = .footers → m.queryParams = [] ∧ m.cookieParams = []) := by
  by_cases hstart : p.messageParseState = .start
  · exact ⟨fun _ hn => (by cases hstart.symm.trans hn), fun _ => recordsOnce_start h hstart⟩
  by_cases hheaders : p.messageParseState = .headers ∨ p.messageParseState = .footers
  · obtain ⟨m', hfinish, hdicts⟩ := finish_headers (x := x) m hheaders
    obtain ⟨hquery, hcookies⟩ := recorded_base (x := x) p.queryString m
    have hnames : m'.headers = m.headers := congrArg Prod.fst hdicts
    rw [← hdicts] at hquery hcookies
    rw [← hnames] at hcookies
    rw [conclusion_once hfinish hquery hcookies]
    rcases hheaders with hst | hst
    · exact ⟨fun _ hn => (by cases hst.symm.trans hn), fun _ => h.opening (Or.inr hst)⟩
    · exact ⟨fun hnil _ => hnil, fun hnil => hnil hst⟩
  · have hopen : ¬ Opening p.messageParseState := fun hn => hn.elim hstart fun hn => hheaders (Or.inl hn)
    have hfooters : p.messageParseState ≠ .footers := fun hn => hheaders (Or.inr hn)
    obtain ⟨m', hfinish, hdicts⟩ := finish_body (x := x) m hopen hfooters
    obtain ⟨hnames, hparams, hcookie⟩ := dicts_eq_iff.mp hdicts
    have hquery := h.query hopen
    have hcookies := h.cookies hopen hfooters
    rw [← hparams, ← List.append_nil (queryEntries _ _)] at hquery
    rw [← hcookie, ← hnames, ← List.append_nil (cookieEntries _ _)] at hcookies
    rw [conclusion_once hfinish hquery hcookies]
    exact ⟨fun _ hn => absurd hn hfooters, fun _ => ⟨rfl, rfl⟩⟩

/-- **`finish` records each parameter once**, wherever a request is cut off, exactly if it is not cut
off inside the trailers, or the head has put nothing into the dictionaries. -/
theorem finish_once_iff (x : Externals) (hook : Hook) (p : HttpParser) (m : HttpRequest)
    (hstart : p.messageParseState = .start) (hquery : p.queryString = []) (hm : dicts m = ([], [], []))
    (bufs : List Bytes) (hrc : (feed x hook (waitingWith p m none) bufs).rc = .ok .indeterminate) :
    let r := feed x hook (waitingWith p m none) bufs
    RecordsOnce x r.parser r.msg ↔
      (r.parser.messageParseState = .footers → r.msg.queryParams = [] ∧ r.msg.cookieParams = []) := by
  have hheaders : m.headers = [] := congrArg (·.1) hm
  have hparams : m.queryParams = [] := congrArg (·.2.1) hm
  have hcookies : m.cookieParams = [] := congrArg (·.2.2) hm
  have hopen : Opening p.messageParseState := Or.inl hstart
  have hnew : Recorded x p m := ⟨fun _ => ⟨hquery, hheaders⟩, fun _ => ⟨hparams, hcookies⟩,
    fun hn => absurd hopen hn, fun hn => absurd hopen hn, fun hn => (by cases hstart.symm.trans hn)⟩
  exact recordsOnce_iff (recorded_feed hnew bufs hrc)

/-- A chunked request with a query pair and a cookie, in front of its trailers. -/
def trailedRequest : Bytes :=
  str "POST /?a=1 HTTP/1.1\r\nCookie: k=v\r\nTransfer-Encoding: chunked\r\n\r\n2\r\nhi\r\n0\r\n"

/-- A new parser that has been fed these buffers. -/
def cutOff (bufs : List Bytes) : ParseResult :=
  feed plainExternals noHook (waitingWith (HttpParser.fresh 100 0 0) HttpRequest.fresh none) bufs

/-- Cut off in front of the trailers. -/
theorem finish_once_chunks :
    let r := cutOff [trailedRequest]
    RecordsOnce plainExternals r.parser r.msg ↔
      (r.parser.messageParseState = .footers → r.msg.queryParams = [] ∧ r.msg.cookieParams = []) :=
  finish_once_iff plainExternals noHook (HttpParser.fresh 100 0 0) HttpRequest.fresh rfl rfl rfl
    [trailedRequest] (by decide +kernel)

/-- Cut off inside them, the query pair and the cookie are recorded twice. -/
theorem finish_twice :
    (cutOff [trailedRequest, str "X"]).rc = .ok .indeterminate ∧
      queryEntries plainExternals (cutOff [trailedRequest, str "X"]).parser.queryString =
        [(str "a", str "1")] ∧
      (finish plainExternals (cutOff [trailedRequest, str "X"]).parser
        (cutOff [trailedRequest, str "X"]).msg).1.queryParams = [(str "a", str "1"), (str "a", str "1")] ∧
      ¬ RecordsOnce plainExternals (cutOff [trailedRequest, str "X"]).parser
        (cutOff [trailedRequest, str "X"]).msg := by
  decide +kernel

end Pion.Proof
