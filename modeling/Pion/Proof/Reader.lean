import Pion.HttpRequestReader
import Pion.Proof.Streaming

/-!
# A reader and its buffers

A reader is a parser that is fed one buffer after another, until it has a result.
`FedBy` is that: a reader that has been fed some buffers and waits for more. Where its
read pointers stand follows from what the parser left unread.
-/

namespace Pion.Proof

open Pion Lib

variable {x : Externals} {hook : Hook}

/-! ## What a parse reports -/

/-- An error code comes with a failure only, and no byte is unread that was not there. -/
structure Reports (g g' : Progress) (rc : Except Exn Tribool) : Prop where
  ec : rc ≠ .ok .false → g'.ec = g.ec
  unread : g'.unread.length ≤ g.unread.length

theorem Reports.trans {g g₁ g₂ : Progress} {rc rc' : Except Exn Tribool} (h : Reports g g₁ rc)
    (hrc : rc ≠ .ok .false) (h' : Reports g₁ g₂ rc') : Reports g g₂ rc' :=
  ⟨fun hne => (h'.ec hne).trans (h.ec hrc), Nat.le_trans h'.unread h.unread⟩

theorem parseHeaders_reports (g : Progress) :
    Reports g (parseHeaders x g).1 (.ok (parseHeaders x g).2) := by
  unfold parseHeaders
  dsimp only
  split
  · exact ⟨fun _ => rfl, Nat.zero_le _⟩
  · rename_i h
    exact ⟨fun _ => rfl, (headerScanner_suffix h).length_le⟩
  · rename_i h
    exact ⟨fun hne => absurd rfl hne, (headerScanner_suffix h).length_le⟩

theorem finishHeaderParsing_reports (g : Progress) :
    Reports g (finishHeaderParsing x hook g).1 (finishHeaderParsing x hook g).2 := by
  rw [finishHeaderParsing_eq]
  split
  · exact ⟨fun hne => absurd rfl hne, Nat.le_refl _⟩
  · split
    · exact ⟨fun _ => rfl, Nat.le_refl _⟩
    · exact ⟨fun _ => rfl, Nat.le_refl _⟩

theorem parseHeadersCase_reports (x : Externals) (hook : Hook) (g : Progress) (t : Nat) :
    Reports g (parseHeadersCase x hook g t).1 (parseHeadersCase x hook g t).2.2 := by
  have h := parseHeaders_reports (x := x) g
  unfold parseHeadersCase
  dsimp only
  split
  · rename_i hrc
    exact h.trans (fun hf => by rw [hrc.1] at hf; cases hf) (finishHeaderParsing_reports _)
  · exact h

theorem parseChunksCase_reports (g : Progress) (t : Nat) :
    Reports g (parseChunksCase g t).1 (parseChunksCase g t).2.2 := by
  have hlen : (parseChunks g).1.unread.length ≤ g.unread.length := by
    unfold parseChunks
    dsimp only
    split
    · exact Nat.zero_le _
    all_goals
      rename_i h
      exact (chunkScanner_suffix h).length_le
  have hec : (parseChunks g).2 ≠ some .false → (parseChunks g).1.ec = g.ec := by
    unfold parseChunks
    dsimp only
    split
    · exact fun _ => rfl
    · exact fun _ => rfl
    · exact fun _ => rfl
    · exact fun hne => absurd rfl hne
    · exact fun _ => rfl
  unfold parseChunksCase
  dsimp only
  split
  · exact ⟨fun hne => absurd rfl hne, hlen⟩
  · rename_i rc hrc
    split
    · rename_i htrue
      refine ⟨fun _ => hec (fun hf => ?_), hlen⟩
      rw [hrc, htrue.1] at hf
      cases hf
    · refine ⟨fun hne => hec (fun hf => hne ?_), hlen⟩
      rw [hrc] at hf
      injection hf with hf
      rw [hf]

theorem consumeContent_reports (g : Progress) :
    (consumeContent g).1.ec = g.ec ∧ (consumeContent g).1.unread.length ≤ g.unread.length := by
  have hdrop : ∀ n, (g.unread.drop n).length ≤ g.unread.length := by
    intro n
    rw [List.length_drop]
    omega
  unfold consumeContent
  dsimp only
  split
  · exact ⟨rfl, Nat.le_refl _⟩
  · split
    · split
      · exact ⟨rfl, Nat.le_refl _⟩
      · exact ⟨rfl, hdrop _⟩
    · exact ⟨rfl, hdrop _⟩

theorem consumeContentAsNextChunk_reports (g : Progress) :
    (consumeContentAsNextChunk g).1.ec = g.ec ∧
      (consumeContentAsNextChunk g).1.unread.length ≤ g.unread.length := by
  unfold consumeContentAsNextChunk
  dsimp only
  split
  · exact ⟨rfl, Nat.le_refl _⟩
  · split
    · split
      · exact ⟨rfl, Nat.le_refl _⟩
      · exact ⟨rfl, Nat.zero_le _⟩
    · exact ⟨rfl, Nat.zero_le _⟩

theorem parseSwitch_reports (x : Externals) (hook : Hook) (g : Progress) (t : Nat) :
    Reports g (parseSwitch x hook g t).1 (parseSwitch x hook g t).2.2 := by
  cases hst : g.parser.messageParseState with
  | start =>
    rw [parseSwitch_start hst]
    have h := parseHeadersCase_reports x hook
      { g with parser := { g.parser with messageParseState := .headers } } t
    exact ⟨h.ec, h.unread⟩
  | headers =>
    rw [parseSwitch_headers hst]
    exact parseHeadersCase_reports x hook g t
  | footers =>
    rw [parseSwitch_footers hst]
    exact parseHeadersCase_reports x hook g t
  | chunks =>
    rw [parseSwitch_chunks hst]
    exact parseChunksCase_reports g t
  | content =>
    obtain ⟨h1, h2⟩ := consumeContent_reports g
    rw [parseSwitch_content hst]
    split
    · exact ⟨fun _ => h1, h2⟩
    · exact ⟨fun _ => h1, h2⟩
  | contentNoLength =>
    obtain ⟨h1, h2⟩ := consumeContentAsNextChunk_reports g
    rw [parseSwitch_contentNoLength hst]
    split
    · exact ⟨fun _ => h1, h2⟩
    · exact ⟨fun _ => h1, h2⟩
  | «end» =>
    rw [parseSwitch_end hst]
    exact ⟨fun _ => rfl, Nat.le_refl _⟩

theorem parseLoop_reports (x : Externals) (hook : Hook) : ∀ (n : Nat) (g : Progress) (t : Nat),
    Reports g (parseLoop x hook n g t).1 (parseLoop x hook n g t).2.2 := by
  intro n
  induction n with
  | zero => intro g t; exact ⟨fun _ => rfl, Nat.le_refl _⟩
  | succ n ih =>
    intro g t
    have h := parseSwitch_reports x hook g t
    rw [parseLoop]
    rcases hr : parseSwitch x hook g t with ⟨g', t', rc⟩
    rw [hr] at h
    rcases rc with e | b
    · exact h
    cases b with
    | true => exact h
    | false => exact h
    | indeterminate =>
      dsimp only
      split
      · exact h
      · exact h.trans (fun hf => by cases hf) (ih g' t')

/-- **What `parse` reports**: an error code comes with a failure only, and no more is left
unread than it was given. -/
theorem parse_reports (x : Externals) (hook : Hook) (p : HttpParser) (m : HttpRequest) (ec : Option ErrorValue) (buf : Bytes) :
    let r := parse x hook p m ec buf
    (r.rc ≠ .ok .false → r.ec = ec) ∧ r.unread.length ≤ buf.length := by
  have h := parseLoop_reports x hook 3 (opened p m ec buf) 0
  rcases hr : parseLoop x hook 3 (opened p m ec buf) 0 with ⟨g, t, rc⟩
  rw [hr] at h
  rw [parse_of_loop hr]
  unfold parseEnd
  split
  · exact ⟨fun _ => h.ec (fun hf => by cases hf), h.unread⟩
  · dsimp only
    split
    · exact ⟨fun _ => h.ec (fun hf => by cases hf), h.unread⟩
    · exact ⟨fun _ => h.ec (fun hf => by cases hf), h.unread⟩
  · exact ⟨fun hne => absurd rfl hne, h.unread⟩
  · exact ⟨fun _ => h.ec (fun hf => by cases hf), h.unread⟩

/-! ## Feeding one more buffer -/

theorem feed_snoc : ∀ (bufs : List Bytes) (r : ParseResult) (b : Bytes),
    (feed x hook r bufs).rc = .ok .indeterminate →
    feed x hook r (bufs ++ [b]) =
      parse x hook (feed x hook r bufs).parser (feed x hook r bufs).msg (feed x hook r bufs).ec b := by
  intro bufs
  induction bufs with
  | nil =>
    intro r b h
    exact if_pos h
  | cons c cs ih =>
    intro r b h
    rw [List.cons_append]
    rw [feed] at h ⊢
    by_cases hr : r.rc = .ok .indeterminate
    · rw [if_pos hr] at h ⊢
      rw [ih _ b h, feed, if_pos hr]
    · rw [if_neg hr] at h
      exact absurd h hr

theorem feed_ec : ∀ (bufs : List Bytes) (r : ParseResult), r.ec = none →
    (feed x hook r bufs).rc = .ok .indeterminate → (feed x hook r bufs).ec = none := by
  intro bufs
  induction bufs with
  | nil => intro r hr _; exact hr
  | cons b bs ih =>
    intro r hr h
    rw [feed] at h ⊢
    split
    · rename_i hi
      rw [if_pos hi] at h
      by_cases hrc : (parse x hook r.parser r.msg r.ec b).rc = .ok .false
      · -- a failure is final
        cases bs with
        | nil => rw [feed, hrc] at h; cases h
        | cons c cs =>
          rw [feed, if_neg (fun hi => by rw [hrc] at hi; cases hi)] at h
          rw [show _ = Except.ok Tribool.false from hrc] at h
          cases h
      · exact ih _ (((parse_reports x hook r.parser r.msg r.ec b).1 hrc).trans hr) h
    · exact hr

/-- What the parser of a new reader makes of some buffers. -/
def fed (x : Externals) (server : HttpServer) (i j : Nat) (bufs : List Bytes) : ParseResult :=
  feed x server.handleRequestAfterHeadersParsed (idle (HttpRequestReader.new i j).parser) bufs

/-- A reader that has been fed some buffers, and waits for more. -/
structure FedBy (x : Externals) (server : HttpServer) (reader : HttpRequestReader) (i j : Nat)
    (bufs : List Bytes) : Prop where
  waits : (fed x server i j bufs).rc = .ok .indeterminate
  parser : reader.parser = (fed x server i j bufs).parser
  request : reader.request = (fed x server i j bufs).msg

theorem fedBy_new (server : HttpServer) (i j : Nat) :
    FedBy x server (HttpRequestReader.new i j) i j [] := ⟨rfl, rfl, rfl⟩

/-- The next parse of the reader, on whatever bytes its pointers point to. -/
theorem FedBy.parse_eq {server : HttpServer} {reader : HttpRequestReader} {i j : Nat}
    {bufs : List Bytes} (h : FedBy x server reader i j bufs) (b : Bytes) :
    parse x server.handleRequestAfterHeadersParsed reader.parser reader.request none b =
      fed x server i j (bufs ++ [b]) := by
  unfold fed
  rw [feed_snoc _ _ _ h.waits, h.parser, h.request, feed_ec _ _ rfl h.waits]
  rfl

/-- The bytes that the last parse left unread are bytes of its buffer. -/
theorem FedBy.unread_suffix {server : HttpServer} {reader : HttpRequestReader} {i j : Nat}
    {bufs : List Bytes} (h : FedBy x server reader i j bufs) {b : Bytes}
    (hs : (fed x server i j (bufs ++ [b])).unread <:+ (bufs ++ [b]).flatten) :
    (fed x server i j (bufs ++ [b])).unread <:+ b := by
  have hlen := (parse_reports x server.handleRequestAfterHeadersParsed reader.parser reader.request none b).2
  rw [h.parse_eq b] at hlen
  refine List.suffix_of_suffix_length_le hs ?_ hlen
  rw [List.flatten_append, List.flatten_singleton]
  exact List.suffix_append _ _

/-! ## Read pointers -/

/-- Moving the read pointer up to the last `n` bytes leaves these. -/
theorem span_move {c : TcpConnection} {s e n : Nat} (he : e ≤ c.readBuffer.length)
    (hn : n ≤ (c.span s e).length) :
    c.span (e - n) e = (c.span s e).drop ((c.span s e).length - n) := by
  have hlen : (c.span s e).length = e - s := by
    unfold TcpConnection.span
    rw [List.length_drop, List.length_take_of_le he]
  rw [hlen] at hn ⊢
  unfold TcpConnection.span
  rw [List.drop_drop]
  by_cases hs : s ≤ e
  · congr 1
    omega
  · -- an empty span
    rw [List.drop_eq_nil_of_le (by rw [List.length_take_of_le he]; omega),
      List.drop_eq_nil_of_le (by rw [List.length_take_of_le he]; omega)]

theorem span_move_suffix {c : TcpConnection} {s e : Nat} {u : Bytes} (he : e ≤ c.readBuffer.length)
    (hu : u <:+ c.span s e) : c.span (e - u.length) e = u := by
  rw [span_move he hu.length_le]
  exact (List.suffix_iff_eq_drop.mp hu).symm

/-! ## Sessions -/

section session

variable {server : HttpServer} {i j : Nat}

/-- The read pointers of the session point into the read buffer. -/
def InBuffer (c : Session) : Prop := c.reader.readEndPtr ≤ c.conn.readBuffer.length

/-- A session whose read has just completed. -/
def arrived (c : Session) (data : Bytes) : Session :=
  { c with
    conn := c.conn.readSome data
    reader := { c.reader with readPtr := 0, readEndPtr := data.length }
    received := c.received ++ data }

theorem arrived_inBuffer (c : Session) (data : Bytes) : InBuffer (arrived c data) := by
  show data.length ≤ (data ++ c.conn.readBuffer.drop data.length).length
  rw [List.length_append]
  omega

theorem arrived_unread (c : Session) (data : Bytes) : (arrived c data).unread = data := by
  show ((data ++ c.conn.readBuffer.drop data.length).take data.length).drop 0 = data
  rw [List.take_left, List.drop_zero]

theorem consumeBytes_fed {c : Session} {bufs : List Bytes} (h : FedBy x server c.reader i j bufs) :
    c.consumeBytes x server = c.afterParse server (fed x server i j (bufs ++ [c.unread])) := by
  unfold Session.consumeBytes
  rw [h.parse_eq]

theorem finishedReading_phase (server : HttpServer) (c : Session) (ec : ReadError) :
    (c.finishedReading server ec).phase ≠ .reading := by
  unfold Session.finishedReading
  dsimp only
  split <;> exact fun h => by cases h

/-- The reader waits for more exactly when the parser does. -/
theorem afterParse_reading (server : HttpServer) (c : Session) (r : ParseResult) :
    (c.afterParse server r).phase = .reading ↔ r.rc = .ok .indeterminate := by
  unfold Session.afterParse
  dsimp only
  rcases r.rc with e | b
  · exact ⟨fun h => (by cases h), fun h => (by cases h)⟩
  cases b with
  | true => exact ⟨fun h => absurd h (finishedReading_phase server _ _), fun h => (by cases h)⟩
  | false => exact ⟨fun h => absurd h (finishedReading_phase server _ _), fun h => (by cases h)⟩
  | indeterminate => exact ⟨fun _ => rfl, fun _ => rfl⟩

theorem afterParse_waits {c : Session} {r : ParseResult} (h : r.rc = .ok .indeterminate) :
    c.afterParse server r = { c with
      reader := { parser := r.parser, request := r.msg,
                  readPtr := c.reader.readEndPtr - r.unread.length, readEndPtr := c.reader.readEndPtr }
      phase := .reading } := by
  unfold Session.afterParse
  rw [h]

theorem fedBy_afterParse {c : Session} {bufs : List Bytes}
    (h : (fed x server i j bufs).rc = .ok .indeterminate) :
    FedBy x server (c.afterParse server (fed x server i j bufs)).reader i j bufs := by
  rw [afterParse_waits h]
  exact ⟨h, rfl, rfl⟩

/-- Of the connection, `handle_request` changes the lifecycle at most, and to close at that. -/
theorem handleRequest_conn (server : HttpServer) (conn : TcpConnection) (ec : ReadError)
    (m : HttpRequest) : (server.handleRequest conn ec m).1 = conn ∨
      (server.handleRequest conn ec m).1 = conn.setLifecycle .close := by
  unfold HttpServer.handleRequest
  dsimp only
  split
  · exact Or.inr rfl
  · split
    · split
      · exact Or.inr rfl
      · exact Or.inl rfl
    · refine Or.inl ?_
      repeat' split
      all_goals rfl

theorem handleRequest_readBuffer (server : HttpServer) (conn : TcpConnection) (ec : ReadError)
    (m : HttpRequest) : (server.handleRequest conn ec m).1.readBuffer = conn.readBuffer := by
  rcases handleRequest_conn server conn ec m with h | h
  · rw [h]
  · rw [h]
    rfl

theorem keepPosition_readBuffer (conn : TcpConnection) (r : HttpRequestReader) :
    (Session.keepPosition conn r).readBuffer = conn.readBuffer := by
  unfold Session.keepPosition
  split
  · split <;> rfl
  · rfl

/-- A request is dispatched as it was parsed, with the read pointers behind it. -/
theorem afterParse_done (server : HttpServer) (c : Session) {r : ParseResult} (h : r.rc = .ok .true) :
    (c.afterParse server r).handled =
        c.handled ++ [{ request := r.msg, payload := r.parser.delivered }] ∧
      (c.afterParse server r).unread =
        c.conn.span (c.reader.readEndPtr - r.unread.length) c.reader.readEndPtr := by
  unfold Session.afterParse
  rw [h]
  refine ⟨rfl, ?_⟩
  unfold Session.unread TcpConnection.span Session.finishedReading
  dsimp only
  rw [handleRequest_readBuffer, keepPosition_readBuffer]

/-- A request that is dispatched as valid has been parsed to its end. -/
theorem done_of_valid {c : Session} {r : ParseResult} {h : Handled}
    (hh : (c.afterParse server r).handled = c.handled ++ [h]) (hvalid : h.request.isValid = true) :
    r.rc = .ok .true := by
  have hsame : c.handled ≠ c.handled ++ [h] := by
    intro he
    have := congrArg List.length he
    rw [List.length_append] at this
    exact absurd this (by simp)
  unfold Session.afterParse at hh
  dsimp only at hh
  rcases hrc : r.rc with e | b
  · rw [hrc] at hh
    exact absurd hh hsame
  cases b with
  | true => rfl
  | false =>
    rw [hrc] at hh
    have hlast := List.append_cancel_left hh
    injection hlast with hlast _
    rw [← hlast] at hvalid
    cases hvalid
  | indeterminate =>
    rw [hrc] at hh
    exact absurd hh hsame

/-! ## Bookmarks -/

/-- Between two readers, the bookmark holds the position of the last one. -/
structure Settled (c : Session) : Prop where
  /-- A reader at work has the connection closed behind it, unless it finds a reason not to. -/
  reading : c.phase = .reading → c.conn.currentLifecycle = .close
  pipelined : c.conn.currentLifecycle = .pipelined →
    c.conn.readPosition = (c.reader.readPtr, c.reader.readEndPtr) ∧
      c.reader.readPtr < c.reader.readEndPtr ∧ InBuffer c
  keepalive : c.conn.currentLifecycle = .keepalive → c.reader.readEndPtr ≤ c.reader.readPtr

theorem settled_close {c : Session} (h : c.conn.currentLifecycle = .close) : Settled c :=
  ⟨fun _ => h, fun hp => (by rw [h] at hp; cases hp), fun hp => (by rw [h] at hp; cases hp)⟩

theorem settled_finishedReading {c : Session} (h : Settled { c with phase := .closed })
    (ec : ReadError) : Settled (c.finishedReading server ec) := by
  have hne := finishedReading_phase server c ec
  rcases handleRequest_conn server c.conn ec c.reader.request with hc | hc
  · have hconn : (c.finishedReading server ec).conn = c.conn := hc
    refine ⟨fun hr => absurd hr hne, fun hp => ?_, fun hp => ?_⟩
    · unfold InBuffer
      rw [hconn] at hp ⊢
      exact h.pipelined hp
    · rw [hconn] at hp
      exact h.keepalive hp
  · have hconn : (c.finishedReading server ec).conn = c.conn.setLifecycle .close := hc
    exact settled_close (by rw [hconn]; rfl)

theorem settled_afterParse {c : Session} (hclose : c.conn.currentLifecycle = .close)
    (hin : InBuffer c) (r : ParseResult) : Settled (c.afterParse server r) := by
  unfold Session.afterParse
  dsimp only
  rcases r.rc with e | b
  · exact settled_close hclose
  cases b with
  | true =>
    refine settled_finishedReading ?_ _
    unfold Session.keepPosition
    split
    · split
      · rename_i heof
        refine ⟨fun h => (by cases h), fun h => (by cases h), fun _ => ?_⟩
        exact of_decide_eq_true heof
      · rename_i heof
        refine ⟨fun h => (by cases h), fun _ => ⟨rfl, ?_, hin⟩, fun h => (by cases h)⟩
        unfold HttpRequestReader.eof at heof
        simp only [ge_iff_le, decide_eq_true_eq, Nat.not_le] at heof
        exact heof
    · exact settled_close rfl
  | false => exact settled_finishedReading (settled_close rfl) _
  | indeterminate => exact settled_close hclose

/-- The sessions that a server can have, from the accepted connection on. -/
inductive Reachable (x : Externals) (server : HttpServer) : Session → Prop where
  | accepted (i j : Nat) : Reachable x server (.accepted x server i j)
  | tail {c c' : Session} (h : Reachable x server c) (hs : Session.Step x server c c') :
      Reachable x server c'

theorem settled_handleConnection {c : Session} (h : Settled c) (i j : Nat) :
    Settled (c.handleConnection x server i j) := by
  unfold Session.handleConnection Session.receive
  split
  · rename_i hp
    have hpipe : c.conn.currentLifecycle = .pipelined := of_decide_eq_true hp
    refine settled_afterParse rfl ?_ _
    obtain ⟨hpos, _, hin⟩ := h.pipelined hpipe
    show c.conn.readPosition.2 ≤ c.conn.readBuffer.length
    rw [hpos]
    exact hin
  · exact settled_close rfl

/-- **The bookmark is the position of the last reader**, in every session. -/
theorem settled_reachable {c : Session} (h : Reachable x server c) : Settled c := by
  induction h with
  | accepted i j => exact settled_close rfl
  | tail h hs ih =>
    cases hs with
    | read data hphase hne hle =>
      exact settled_afterParse (c := arrived _ data) (ih.reading hphase) (arrived_inBuffer _ data) _
    | readError hphase =>
      unfold Session.handleReadError
      dsimp only
      split
      · exact settled_close rfl
      · exact settled_finishedReading (settled_close rfl) _
      · exact settled_finishedReading (settled_close rfl) _
    | finish d i j hphase =>
      unfold Session.finishConnection
      split
      · exact settled_handleConnection ih i j
      · exact ⟨fun h => (by cases h), ih.pipelined, ih.keepalive⟩

end session

end Pion.Proof
