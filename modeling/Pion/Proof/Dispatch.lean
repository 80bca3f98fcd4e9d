import Pion.Proof.Reader
import Pion.Proof.Search

/-!
# What the server makes of a body

The server decides about a body behind its headers. With a payload handler for the
resource, the body is streamed to it. Without one, the hook sets the result code to
true, which ends the parse in front of the body: nothing skips it, and the next reader
takes it for a request. Either way, the content of a request with a `Content-Length` is
a buffer of one zero byte, the length that the reader's parser is limited to.

`body_taken_iff` says when a request is dispatched with its body taken, no more and no
less, and with no content that was not received.
-/

namespace Pion.Proof

open Pion Lib

variable {x : Externals} {server : HttpServer}

/-! ## The hook of the server -/

/-- The payload handlers of this server do not throw. -/
def CalmServer (server : HttpServer) : Prop :=
  ∀ m creator, server.findPayload m = .ok (some creator) → NoThrow (creator m)

theorem findSubmatch_mem {α : Type} {map : List (Bytes × α)} : ∀ (n : Nat) (path : Bytes) {v : α},
    findSubmatchLoop map n path = some v → ∃ k, (k, v) ∈ map := by
  intro n
  induction n with
  | zero => intro path v h; cases h
  | succ n ih =>
    intro path v h
    unfold findSubmatchLoop at h
    split at h
    · rename_i w hw
      injection h with h
      obtain ⟨l₁, l₂, hmap, _⟩ := List.lookup_eq_some_iff.mp hw
      rw [hmap, ← h]
      exact ⟨path, by simp⟩
    · split at h
      · exact ih _ h
      · cases h

/-- The payload handler creator is registered, under some resource. -/
def Registered (server : HttpServer) (k : Bytes) (creator : PayloadHandlerCreator) : Prop :=
  (k, creator) ∈ server.payloads.get ∨ (k, creator) ∈ server.payloads.post ∨
    (k, creator) ∈ server.payloads.put ∨ (k, creator) ∈ server.payloads.delete ∨
    (k, creator) ∈ server.payloads.options

theorem chooseMapByMethod_cases {α : Type} {method : Bytes} {maps : MethodMaps α}
    {map : List (Bytes × α)} (h : chooseMapByMethod method maps = .ok map) :
    map = maps.get ∨ map = maps.post ∨ map = maps.put ∨ map = maps.delete ∨ map = maps.options := by
  unfold chooseMapByMethod at h
  repeat' split at h
  all_goals
    first
    | (injection h with h; simp only [h, true_or, or_true])
    | cases h

theorem calm_of_registered (h : ∀ k creator m, Registered server k creator → NoThrow (creator m)) :
    CalmServer server := by
  intro m creator hf
  unfold HttpServer.findPayload at hf
  split at hf
  · cases hf
  · rename_i map hmap
    injection hf with hf
    obtain ⟨k, hk⟩ := findSubmatch_mem _ _ hf
    refine h k creator m ?_
    unfold Registered
    rcases chooseMapByMethod_cases hmap with rfl | rfl | rfl | rfl | rfl
    · exact Or.inl hk
    · exact Or.inr (Or.inl hk)
    · exact Or.inr (Or.inr (Or.inl hk))
    · exact Or.inr (Or.inr (Or.inr (Or.inl hk)))
    · exact Or.inr (Or.inr (Or.inr (Or.inr hk)))

/-- What the hook decides, from the payload handler creator that was found. -/
def decided (m : HttpRequest) (rc : Tribool) : Option PayloadHandlerCreator → HookResult
  | some creator => { rc := rc, payloadHandler := some (creator m) }
  | none => { rc := .true }

theorem hook_decided (server : HttpServer) (m : HttpRequest) {rc : Tribool} (hrc : rc ≠ .false) :
    server.handleRequestAfterHeadersParsed m none rc = (server.findPayload m).map (decided m rc) := by
  unfold HttpServer.handleRequestAfterHeadersParsed
  rw [if_neg (by simpa using hrc)]
  rcases server.findPayload m with e | _ | creator
  · rfl
  · rfl
  · rfl

theorem server_calmHook (h : CalmServer server) : CalmHook server.handleRequestAfterHeadersParsed := by
  intro m ec rc r hr k hk
  unfold HttpServer.handleRequestAfterHeadersParsed at hr
  split at hr
  · injection hr with hr
    rw [← hr] at hk
    cases hk
  · split at hr
    · cases hr
    · rename_i creator hf
      injection hr with hr
      rw [← hr] at hk
      injection hk with hk
      exact hk ▸ h m creator hf
    · injection hr with hr
      rw [← hr] at hk
      cases hk

theorem framing_rc_ne (f : Framing) : f.rc ≠ .false := by
  rcases f with _ | n | _
  · decide
  · cases n <;> exact fun h => by cases h
  · decide

/-- The framing does not change where a request goes. -/
theorem findPayload_request (server : HttpServer) (max : Nat) (m : HttpRequest) (f : Framing) :
    server.findPayload (f.request max m) = server.findPayload m := by
  rcases f with _ | n | _
  · rfl
  · cases n <;> rfl
  · rfl

/-! ## Content that is too short to be a form -/

/-- A boundary has at least two bytes. -/
theorem formThrows_short {contentType data : Bytes} (h : data.length ≤ 1) :
    ¬ FormThrows x contentType data := by
  rintro ⟨_, _, e, he⟩
  unfold parseMultipartFormData at he
  split at he
  · cases he
  · split at he
    · cases he
    · rename_i pos _
      have hnone : findSub (str "--" ++ contentType.drop (pos + 9)) (data.drop 0) = none := by
        cases hf : findSub (str "--" ++ contentType.drop (pos + 9)) (data.drop 0) with
        | none => rfl
        | some i =>
          have hlen := findSub_length hf
          rw [List.length_append, show (str "--").length = 2 from rfl, List.drop_zero] at hlen
          omega
      have hsearch : searchFrom data (str "--" ++ contentType.drop (pos + 9)) 0 = data.length := by
        unfold searchFrom
        rw [hnone]
      dsimp only at he
      rw [hsearch, show 2 * data.length + 2 = (2 * data.length + 1) + 1 from rfl, multiPartLoop] at he
      dsimp only at he
      rw [List.getElem?_eq_none (Nat.le_refl _)] at he
      cases he

/-! ## A whole request, as the server's reader parses it -/

/-- A request as it is dispatched, with `k` as its payload handler. -/
def finished (x : Externals) (k : Option PayloadHandler) (m : HttpRequest) : HttpRequest :=
  if k.isNone then (parsePostContent x (concluded m)).1 else concluded m

theorem finished_content (k : Option PayloadHandler) (m : HttpRequest) :
    (finished x k m).content = m.content := by
  unfold finished
  split
  · rw [parsePostContent_frame]
    rfl
  · rfl

/-- The part of the body that is left unread. -/
def remains (found : Option PayloadHandlerCreator) (body : Body) : Bytes :=
  if found.isSome then body.leftover else body.text

/-- The content of a request behind its headers. -/
theorem request_content (x : Externals) (s : HeaderState) (f : Framing) :
    (f.request 1 (headRequest x s)).content = if f.state = .content then [0] else [] := by
  have hlen := headRequest_contentLength x s
  unfold HttpMessage.content
  rcases f with _ | n | _
  · show (headRequest x s).contentBuf.take (headRequest x s).contentLength = []
    rw [hlen, List.take_zero]
  · cases n with
    | zero => exact List.take_zero
    | succ n =>
      show (List.replicate (min (n + 1) 1) (0 : UInt8)).take (min (n + 1) 1) = [0]
      rw [Nat.min_eq_right (Nat.succ_pos n)]
      rfl
  · show (headRequest x s).contentBuf.take (headRequest x s).contentLength = []
    rw [hlen, List.take_zero]

/-- The end of a parse that did not go further than the headers. -/
theorem parseEnd_short {g : Progress} (hk : g.parser.payloadHandler = none)
    (hp : g.parser.parseHeadersOnly = false) (hshort : g.msg.content.length ≤ 1) (t : Nat) :
    let r := parseEnd x g t (.ok .true)
    r.rc = .ok .true ∧ r.ec = g.ec ∧ r.unread = g.unread ∧
      r.parser.delivered = g.parser.delivered ∧ r.msg = finished x none g.msg := by
  obtain ⟨hunread, hec, hchunk, _, hrc⟩ := parseEnd_true (x := x) g t
  refine ⟨hrc.mpr fun hf => formThrows_short hshort hf.2.2, hec, hunread, ?_, ?_⟩
  · exact congrArg (fun q : ChunkFields => q.delivered) hchunk
  · unfold parseEnd
    dsimp only
    rw [finish_end, hk, hp, if_pos ⟨rfl, rfl⟩]
    unfold finished
    rcases hpost : parsePostContent x (concluded g.msg) with ⟨m, e⟩
    rw [show parsePostContent x (computeMsgStatus { g.msg with isValid := true } true) = (m, e)
      from hpost]
    cases e <;> rfl

theorem parseSwitch_server (server : HttpServer) (i j : Nat) {head : Bytes} {s : HeaderState}
    (hhead : Accepts x head s) {f : Framing} (hf : framing x (headRequest x s) = some f) (tail : Bytes) :
    parseSwitch x server.handleRequestAfterHeadersParsed
        (opened (HttpRequestReader.new i j).parser HttpRequest.fresh none (head ++ tail)) 0 =
      match (server.findPayload (headRequest x s)).map (decided (f.request 1 (headRequest x s)) f.rc) with
      | .error e =>
        (behindHead x (HttpRequestReader.new i j).parser s head.length f none tail, head.length, .error e)
      | .ok r =>
        (behindHead x (HttpRequestReader.new i j).parser s head.length f (r.payloadHandler <|> none) tail,
          head.length, .ok r.rc) := by
  rw [← findPayload_request server 1 _ f, ← hook_decided server _ (framing_rc_ne f)]
  exact parseSwitch_head (p := (HttpRequestReader.new i j).parser) (fresh_unused 1 i j) hhead hf tail

/-- **What the server's reader makes of a request**, if its method is known: the bytes
behind the body stay unread, and in front of them whatever was not taken of the body. -/
theorem parse_server (hserver : CalmServer server) (i j : Nat) {head : Bytes} {s : HeaderState}
    (hhead : Accepts x head s) {body : Body} (hfit : body.Fits x s)
    {found : Option PayloadHandlerCreator} (hfound : server.findPayload (headRequest x s) = .ok found)
    (rest : Bytes) :
    let r := parse x server.handleRequestAfterHeadersParsed (HttpRequestReader.new i j).parser
      HttpRequest.fresh none (head ++ (body.text ++ rest))
    let m := body.framing.request 1 (headRequest x s)
    r.rc = .ok .true ∧ r.ec = none ∧ r.unread = remains found body ++ rest ∧
      r.parser.delivered = (if found.isSome then body.data else []) ∧
      r.msg = finished x (found.map (· m)) m := by
  have hm := (findPayload_request server 1 _ body.framing).trans hfound
  cases found with
  | some creator =>
    have hhook := hook_decided server (body.framing.request 1 (headRequest x s))
      (framing_rc_ne body.framing)
    rw [hm] at hhook
    exact parse_streamed (p := (HttpRequestReader.new i j).parser) (fresh_unused 1 i j) hhead hfit
      ⟨_, hhook, rfl, rfl⟩ (hserver _ creator hm) rest
  | none =>
    -- the first pass is the last one
    have hpass := parseSwitch_server server i j hhead hfit.framing (body.text ++ rest)
    rw [hfound] at hpass
    have hshort : (body.framing.request 1 (headRequest x s)).content.length ≤ 1 := by
      rw [request_content]
      split <;> decide
    rw [parse_of_loop (parseLoop_done hpass (fun h => by cases h) 2)]
    exact parseEnd_short (g := behindHead x (HttpRequestReader.new i j).parser s
      head.length body.framing none (body.text ++ rest)) rfl rfl hshort head.length

/-- A request whose method is not known does not get that far. -/
theorem parse_rejected (i j : Nat) {head : Bytes} {s : HeaderState} (hhead : Accepts x head s)
    {body : Body} (hfit : body.Fits x s) {e : Exn}
    (hfound : server.findPayload (headRequest x s) = .error e) (rest : Bytes) :
    (parse x server.handleRequestAfterHeadersParsed (HttpRequestReader.new i j).parser
      HttpRequest.fresh none (head ++ (body.text ++ rest))).rc = .error e := by
  have hpass := parseSwitch_server server i j hhead hfit.framing (body.text ++ rest)
  rw [hfound] at hpass
  rw [parse_of_loop (parseLoop_done hpass (fun h => by cases h) 2)]
  rfl

/-! ## The buffers of one reader -/

/-- The bytes behind the bookmark. -/
def bookmarked (conn : TcpConnection) : Bytes := conn.span conn.readPosition.1 conn.readPosition.2

/-- The buffers that a new reader parses, one after another: the bytes behind the bookmark
of the session it starts in, if it has one, and then what it reads. -/
inductive Reads (x : Externals) (server : HttpServer) (c₀ : Session) (i j : Nat) :
    List Bytes → Session → Prop where
  | waits (h : c₀.conn.isPipelined = false) : Reads x server c₀ i j [] (c₀.handleConnection x server i j)
  | bookmark (h : c₀.conn.isPipelined = true) :
      Reads x server c₀ i j [bookmarked c₀.conn] (c₀.handleConnection x server i j)
  | read {bufs : List Bytes} {c : Session} (h : Reads x server c₀ i j bufs c) (data : Bytes)
      (hphase : c.phase = .reading) (hne : data ≠ []) (hle : data.length ≤ readBufferSize) :
      Reads x server c₀ i j (bufs ++ [data]) (c.readCompletes x server data)

/-- A session that a new reader starts in: the connection has just been accepted, or it is
kept alive when the last request has been answered. -/
inductive Starts (x : Externals) (server : HttpServer) : Session → Prop where
  | accepted : Starts x server .initial
  | finished {c : Session} {d : Dispatch} (h : Reachable x server c) (hphase : c.phase = .handling d)
      (hkeep : c.conn.getKeepAlive = true) : Starts x server c

theorem Starts.settled {c : Session} (h : Starts x server c) : Settled c := by
  cases h with
  | accepted => exact settled_close rfl
  | finished h _ _ => exact settled_reachable h

/-- **The next reader starts where the last one left off.** -/
theorem Settled.bookmarked_eq {c : Session} (h : Settled c) (hp : c.conn.isPipelined = true) :
    bookmarked c.conn = c.unread ∧ c.unread ≠ [] := by
  obtain ⟨hpos, hlt, hin⟩ := h.pipelined (of_decide_eq_true hp)
  have hlen : c.unread.length = c.reader.readEndPtr - c.reader.readPtr := by
    unfold Session.unread TcpConnection.span
    rw [List.length_drop, List.length_take_of_le hin]
  unfold bookmarked
  rw [hpos]
  refine ⟨rfl, fun he => ?_⟩
  rw [he, List.length_nil] at hlen
  omega

/-- The reader has been fed some buffers, and has the last one in front of it. -/
structure Loaded (x : Externals) (server : HttpServer) (i j : Nat) (c : Session)
    (front : List Bytes) : Prop where
  fedBy : FedBy x server c.reader i j front
  inBuffer : InBuffer c
  ne : c.unread ≠ []

/-- A new reader at the bookmark. -/
def resumed (c : Session) (i j : Nat) : Session :=
  { c with
    conn := c.conn.setLifecycle .close
    reader := { HttpRequestReader.new i j with
      readPtr := c.conn.readPosition.1, readEndPtr := c.conn.readPosition.2 } }

theorem handleConnection_resumed {c : Session} (hp : c.conn.isPipelined = true) (i j : Nat) :
    c.handleConnection x server i j = (resumed c i j).consumeBytes x server := by
  unfold Session.handleConnection Session.receive
  rw [if_pos hp]
  rfl

theorem Settled.loaded {c : Session} (h : Settled c) (hp : c.conn.isPipelined = true) (i j : Nat) :
    Loaded x server i j (resumed c i j) [] := by
  obtain ⟨hpos, _, hin⟩ := h.pipelined (of_decide_eq_true hp)
  obtain ⟨heq, hne⟩ := h.bookmarked_eq hp
  refine ⟨⟨rfl, rfl, rfl⟩, ?_, ?_⟩
  · show c.conn.readPosition.2 ≤ c.conn.readBuffer.length
    rw [hpos]
    exact hin
  · show bookmarked c.conn ≠ []
    rw [heq]
    exact hne

/-- A reader that waits, with one more buffer in front of it. -/
theorem FedBy.loaded {c : Session} {i j : Nat} {bufs : List Bytes}
    (h : FedBy x server c.reader i j bufs) {data : Bytes} (hne : data ≠ []) :
    Loaded x server i j (arrived c data) bufs := by
  refine ⟨⟨h.waits, h.parser, h.request⟩, arrived_inBuffer c data, ?_⟩
  rw [arrived_unread]
  exact hne

/-- A reader that has been fed its buffers waits, or it had its result with the last one. -/
inductive Result (x : Externals) (server : HttpServer) (i j : Nat) (bufs : List Bytes)
    (handled : List Handled) : Session → Prop where
  | waits {c : Session} (hfed : FedBy x server c.reader i j bufs) (hh : c.handled = handled) :
      Result x server i j bufs handled c
  | done {c : Session} {front : List Bytes} (h : Loaded x server i j c front)
      (hbufs : bufs = front ++ [c.unread]) (hh : c.handled = handled)
      (hrc : (fed x server i j bufs).rc ≠ .ok .indeterminate) :
      Result x server i j bufs handled (c.afterParse server (fed x server i j bufs))

theorem Loaded.result {i j : Nat} {c : Session} {front : List Bytes} (h : Loaded x server i j c front) :
    Result x server i j (front ++ [c.unread]) c.handled (c.consumeBytes x server) := by
  rw [consumeBytes_fed h.fedBy]
  by_cases hrc : (fed x server i j (front ++ [c.unread])).rc = .ok .indeterminate
  · refine .waits (fedBy_afterParse hrc) ?_
    rw [afterParse_waits hrc]
  · exact .done h rfl rfl hrc

/-- **Reads feed the reader**, until it has a result. -/
theorem Reads.result {c₀ : Session} (hstart : Starts x server c₀) {i j : Nat} {bufs : List Bytes}
    {c : Session} (h : Reads x server c₀ i j bufs c) :
    (∀ b ∈ bufs, b ≠ []) ∧ Result x server i j bufs c₀.handled c := by
  induction h with
  | waits h =>
    refine ⟨fun b hb => (by cases hb), ?_⟩
    unfold Session.handleConnection Session.receive
    rw [if_neg (by simp [h])]
    exact .waits (fedBy_new server i j) rfl
  | bookmark h =>
    have hload : Loaded x server i j (resumed c₀ i j) [] := hstart.settled.loaded h i j
    rw [handleConnection_resumed h]
    exact ⟨List.forall_mem_singleton.mpr hload.ne, hload.result⟩
  | @read bufs c h data hphase hne hle ih =>
    obtain ⟨hbufs, ih⟩ := ih
    refine ⟨List.forall_mem_append.mpr ⟨hbufs, List.forall_mem_singleton.mpr hne⟩, ?_⟩
    cases ih with
    | waits hfed hh =>
      have hres := (hfed.loaded hne).result
      rw [arrived_unread] at hres
      exact hh ▸ hres
    | done hload hb hh hrc => exact absurd ((afterParse_reading _ _ _).mp hphase) hrc

/-- The server has a payload handler for this request. -/
def HasPayload (server : HttpServer) (m : HttpRequest) : Prop :=
  ∃ creator, server.findPayload m = .ok (some creator)

/-- The body is one that the server's reader takes as it should. -/
def Taken (server : HttpServer) (m : HttpRequest) : Body → Prop
  | .none | .sized [] => True
  | .sized (c :: _) => HasPayload server m ∧ c = 0
  | .chunked b => HasPayload server m ∧ b.trailers = []

theorem hasPayload_iff {m : HttpRequest} {found : Option PayloadHandlerCreator}
    (h : server.findPayload m = .ok found) : HasPayload server m ↔ found.isSome = true := by
  unfold HasPayload
  rw [h]
  cases found with
  | none => exact ⟨fun ⟨_, h⟩ => (by cases h), fun h => (by cases h)⟩
  | some creator => exact ⟨fun _ => rfl, fun _ => ⟨creator, rfl⟩⟩

theorem remains_suffix (found : Option PayloadHandlerCreator) (body : Body) :
    remains found body <:+ body.text := by
  unfold remains
  split
  · unfold Body.leftover
    split
    · exact List.nil_suffix
    · cases body with
      | none => rename_i h; exact absurd rfl h
      | sized data => rename_i h; exact absurd rfl h
      | chunked b => exact List.suffix_append _ _
  · exact List.suffix_refl _

/-- What `Taken` says, in terms of what is left of the body and of the content. -/
theorem taken_iff {m : HttpRequest} {found : Option PayloadHandlerCreator}
    (h : server.findPayload m = .ok found) (body : Body) :
    (remains found body = [] ∧ (if body.framing.state = .content then [0] else []) <+: body.data) ↔
      Taken server m body := by
  have hhas := hasPayload_iff h
  unfold remains
  cases body with
  | none =>
    refine ⟨fun _ => trivial, fun _ => ⟨?_, List.nil_prefix⟩⟩
    split <;> rfl
  | sized data =>
    cases data with
    | nil =>
      refine ⟨fun _ => trivial, fun _ => ⟨?_, List.nil_prefix⟩⟩
      split <;> rfl
    | cons c cs =>
      -- the content buffer has room for one byte, which nobody writes
      show _ ∧ [0] <+: c :: cs ↔ HasPayload server m ∧ c = 0
      rw [hhas, List.cons_prefix_cons]
      split
      · rename_i hf
        exact ⟨fun hl => ⟨hf, hl.2.1.symm⟩, fun hr => ⟨rfl, hr.2.symm, List.nil_prefix⟩⟩
      · rename_i hf
        exact ⟨fun hl => absurd hl.1 (List.cons_ne_nil c cs), fun hr => absurd hr.1 hf⟩
  | chunked b =>
    show _ ∧ [] <+: b.data ↔ HasPayload server m ∧ b.trailers = []
    rw [hhas]
    split
    · rename_i hf
      refine ⟨fun hl => ⟨hf, ?_⟩, fun hr => ⟨Body.leftover_nil (b := .chunked b) hr.2, List.nil_prefix⟩⟩
      by_contra hne
      exact leftover_ne (b := .chunked b) hne [] (by rw [hl.1, List.append_nil])
    · rename_i hf
      exact ⟨fun hl => absurd hl.1 b.text_ne_nil, fun hr => absurd hr.1 hf⟩

/-- **A reader that is done has the result of the whole stream**, whatever it has not read yet. -/
theorem fed_extend (hserver : CalmServer server) {i j : Nat} {bufs : List Bytes}
    (hbufs : ∀ b ∈ bufs, b ≠ []) (hrc : (fed x server i j bufs).rc ≠ .ok .indeterminate)
    (later : Bytes) :
    SameResult { fed x server i j bufs with unread := (fed x server i j bufs).unread ++ later }
      (parse x server.handleRequestAfterHeadersParsed (HttpRequestReader.new i j).parser
        HttpRequest.fresh none (bufs.flatten ++ later)) := by
  have hcalm : CalmHook server.handleRequestAfterHeadersParsed := server_calmHook hserver
  have hp : Calm (HttpRequestReader.new i j).parser.toChunkFields := fresh_calm 1 i j
  have hne : bufs.flatten ≠ [] := by
    intro he
    cases bufs with
    | nil => exact hrc rfl
    | cons b bs => exact hbufs b List.mem_cons_self (List.append_eq_nil_iff.mp he).1
  have hsame : SameResult (fed x server i j bufs) _ := feed_idle hcalm hp hbufs hne
  rw [parse_extend hcalm hp HttpRequest.fresh none hne (fun hi => hrc (hsame.rc.trans hi)) later]
  exact ⟨hsame.rc, hsame.ec, hsame.msg, congrArg (· ++ later) hsame.unread, hsame.parser⟩

/-- **What a reader has made of a request** that it was fed with the bytes behind it, once it
is done. -/
theorem fed_request (hserver : CalmServer server) {i j : Nat} {bufs : List Bytes}
    (hbufs : ∀ b ∈ bufs, b ≠ []) (hrc : (fed x server i j bufs).rc = .ok .true) {head : Bytes}
    {s : HeaderState} (hhead : Accepts x head s) {body : Body} (hfit : body.Fits x s)
    {later rest : Bytes} (hstream : bufs.flatten ++ later = head ++ (body.text ++ rest)) :
    ∃ found, server.findPayload (headRequest x s) = .ok found ∧
      (fed x server i j bufs).unread ++ later = remains found body ++ rest ∧
      (fed x server i j bufs).msg = finished x
        (found.map (· (body.framing.request 1 (headRequest x s))))
        (body.framing.request 1 (headRequest x s)) := by
  have hsame := fed_extend hserver hbufs (fun hi => by rw [hrc] at hi; cases hi) later
  rw [hstream] at hsame
  cases hfound : server.findPayload (headRequest x s) with
  | error e =>
    have hrej := parse_rejected i j hhead hfit hfound rest
    exact absurd (hrc.symm.trans (hsame.rc.trans hrej)) (fun he => by cases he)
  | ok found =>
    obtain ⟨_, _, hunread, _, hmsg⟩ := parse_server hserver i j hhead hfit hfound rest
    exact ⟨found, rfl, hsame.unread.trans hunread, hsame.msg.trans hmsg⟩

/-- **When a body is taken exactly.** A reader that was started in some session of the
connection has dispatched a request, and the stream goes on behind the body with `rest`.
What is unread, with what is read later, is `rest`, and the content is made of bytes of the
body, if there is no body, or it has a payload handler and is chunked without trailers. For a
body of a given length there is a zero byte of content, so there it depends on the first
byte. A body is chunked if the `Transfer-Encoding` header that is found is `chunked` or
`Chunked`: no other spelling is known. -/
theorem body_taken_iff (hserver : CalmServer server) (c₀ : Session) (hstart : Starts x server c₀)
    (i j : Nat) (bufs : List Bytes) (c : Session) (hreads : Reads x server c₀ i j bufs c)
    (h : Handled) (hh : c.handled = c₀.handled ++ [h]) (hvalid : h.request.isValid = true)
    (head : Bytes) (s : HeaderState) (hhead : Accepts x head s) (body : Body) (hfit : body.Fits x s)
    (later rest : Bytes) (hstream : bufs.flatten ++ later = head ++ (body.text ++ rest)) :
    (c.unread ++ later = rest ∧ h.request.content <+: body.data) ↔
      Taken server (headRequest x s) body := by
  obtain ⟨hbufs, hres⟩ := hreads.result hstart
  cases hres with
  -- a reader that waits has not handled anything
  | waits _ hnone =>
    rw [hnone] at hh
    have := congrArg List.length hh
    rw [List.length_append] at this
    exact absurd this (by simp)
  | @done c₁ front hload hb hnone _ =>
    subst hb
    rw [← hnone] at hh
    have hrc := done_of_valid hh hvalid
    obtain ⟨found, hfound, hleft, hmsg⟩ := fed_request hserver hbufs hrc hhead hfit hstream
    -- what the parser has left is the end of the last buffer, so the bookmark can express it
    have hsuffix : (fed x server i j (front ++ [c₁.unread])).unread <:+
        (front ++ [c₁.unread]).flatten := by
      obtain ⟨w, hw⟩ := remains_suffix found body
      refine ⟨head ++ w, (List.append_left_inj later).mp ?_⟩
      rw [hstream, List.append_assoc, hleft, ← hw]
      simp only [List.append_assoc]
    obtain ⟨hhandled, hspan⟩ := afterParse_done server c₁ hrc
    have hunread : (c₁.afterParse server (fed x server i j (front ++ [c₁.unread]))).unread =
        (fed x server i j (front ++ [c₁.unread])).unread := by
      rw [hspan]
      exact span_move_suffix hload.inBuffer (hload.fedBy.unread_suffix hsuffix)
    have hreq : h.request = (fed x server i j (front ++ [c₁.unread])).msg := by
      rw [hh] at hhandled
      have hlast := List.append_cancel_left hhandled
      injection hlast with hlast
      rw [hlast]
    rw [hunread, hreq, hmsg, finished_content, request_content, hleft,
      List.append_left_eq_self, taken_iff hfound]

/-- A server with a payload handler for uploads to `/u`. -/
def uploadServer : HttpServer where
  payloads := { post := [(str "/u", fun _ => quietHandler)] }

theorem uploadServer_calm : CalmServer uploadServer := by
  refine calm_of_registered ?_
  intro k creator m hk
  rcases hk with h | h | h | h | h
  · cases h
  · rw [(Prod.mk.inj (List.mem_singleton.mp h)).2]
    exact quietHandler_calm
  · cases h
  · cases h
  · cases h

/-- The connection after one read. -/
def readOnce (server : HttpServer) (data : Bytes) : Session :=
  (Session.accepted plainExternals server 0 0).readCompletes plainExternals server data

theorem reads_once (server : HttpServer) {data : Bytes} (hne : data ≠ [])
    (hle : data.length ≤ readBufferSize) :
    Reads plainExternals server .initial 0 0 [data] (readOnce server data) :=
  .read (.waits rfl) data rfl hne hle

/-- Exactly one request has been dispatched, and it is valid. -/
theorem exists_handled {c : Session} (hone : c.handled.length = 1)
    (hvalid : c.handled.all (·.request.isValid) = true) :
    ∃ h, c.handled = [h] ∧ h.request.isValid = true := by
  obtain ⟨h, hh⟩ := List.length_eq_one_iff.mp hone
  rw [hh] at hvalid
  exact ⟨h, hh, by simpa using hvalid⟩

/-- An upload in chunks, and the beginning of the next request. -/
def uploadStream : Bytes := chunkedHead ++ (plainBody.text ++ str "GET")

theorem body_taken_iff_upload :
    ∃ h, (readOnce uploadServer uploadStream).handled = [h] ∧ h.request.content <+: plainBody.data ∧
      (readOnce uploadServer uploadStream).unread = str "GET" := by
  obtain ⟨h, hh, hv⟩ : ∃ h, (readOnce uploadServer uploadStream).handled = [h] ∧
      h.request.isValid = true := exists_handled (by decide +kernel) (by decide +kernel)
  have htaken : Taken uploadServer (headRequest plainExternals chunkedHeadState) (.chunked plainBody) :=
    ⟨⟨_, rfl⟩, rfl⟩
  obtain ⟨h1, h2⟩ := (body_taken_iff uploadServer_calm .initial .accepted 0 0 [uploadStream] _
    (reads_once uploadServer (by decide +kernel) (by decide +kernel)) h hh hv chunkedHead
    chunkedHeadState chunkedHead_accepted (.chunked plainBody) plainBody_fits [] (str "GET")
    (by rw [List.flatten_singleton, List.append_nil]; rfl)).mpr htaken
  rw [List.append_nil] at h1
  exact ⟨h, hh, h2, h1⟩

/-- The head of an upload of three bytes. -/
def sizedHead : Bytes := str "POST /u HTTP/1.1\r\nContent-Length: 3\r\n\r\n"

def sizedHeadState : HeaderState :=
  ({ headersParseState := .expectingFinalNewline, method := str "POST", resource := str "/u",
     headerName := str "Content-Length", headerValue := str "3" },
   { headers := [(str "Content-Length", str "3")] })

theorem sizedHead_accepted : Accepts plainExternals sizedHead sizedHeadState := by
  unfold Accepts
  decide +kernel

/-- Without a payload handler, the body is left for the next reader. -/
theorem body_taken_unhandled :
    Starts plainExternals {} .initial ∧
      Reads plainExternals {} .initial 0 0 [sizedHead ++ str "abc"] (readOnce {} (sizedHead ++ str "abc")) ∧
      Accepts plainExternals sizedHead sizedHeadState ∧
      (Body.sized (str "abc")).Fits plainExternals sizedHeadState ∧
      ∃ h, (readOnce {} (sizedHead ++ str "abc")).handled = [h] ∧ h.request.isValid = true ∧
        ¬ ((readOnce {} (sizedHead ++ str "abc")).unread = [] ∧ h.request.content <+: str "abc") := by
  refine ⟨.accepted, reads_once {} (by decide +kernel) (by decide +kernel), sizedHead_accepted,
    ⟨by decide +kernel, trivial⟩, ?_⟩
  obtain ⟨h, hh, hv⟩ : ∃ h, (readOnce {} (sizedHead ++ str "abc")).handled = [h] ∧
      h.request.isValid = true := exists_handled (by decide +kernel) (by decide +kernel)
  refine ⟨h, hh, hv, fun hn => ?_⟩
  exact absurd hn.1 (by decide +kernel)

end Pion.Proof
