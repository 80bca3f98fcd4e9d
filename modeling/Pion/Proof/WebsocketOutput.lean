import Pion.Proof.WebsocketInput

/-!
# What a websocket sends

The payload of a message collects in `payload_buffers`, behind a first buffer that is left
free for the header. `Output` says what is in the buffers in each phase, in terms of the data
written since the last send completed, which is remembered beside the state of a run.

From it follows what an application can rely on, that each of its messages becomes one exact
frame (`message_framed`); and that everything sent behind the handshake is whole frames, as
long as no ping has to be answered and the close goes out at once (`sent_framed`). The answer to a
ping is the payload of the ping without a header. A close that is written later is whatever is in
the memory of its status by then.
-/

namespace Pion.Proof

open Pion Lib Websocket

variable {lib : WebsocketLibrary} {ws ws' : Websocket}

/-! ## What is written -/

/-- The texts that `prepare_handshake` writes. -/
def handshakeTexts (lib : WebsocketLibrary) (ws : Websocket) : List Bytes :=
  let headers := lib.makeResponseHeaders (ws.request.getHeader (str "Sec-WebSocket-Key"))
  lib.makeResponseLine :: headers.flatMap (fun ha => [ha.1, str ": ", ha.2, str "\r\n"]) ++ [str "\r\n"]

/-- What `process_receive_buffer` writes: the payload of a ping, as far as it is read. -/
def pingReply (lib : WebsocketLibrary) (b : Bytes) : List Bytes :=
  if pingInFront lib b ∧ 0 < (lib.frame b).payloadLength then
    [(lib.frame b).payloadUnmasked.take pingBufferSize]
  else []

/-- What is written during an event because of a ping. -/
def replies (lib : WebsocketLibrary) (ws : Websocket) (e : Event) : List Bytes :=
  ((looksAt lib ws e).map (pingReply lib)).getD []

/-- The data written since the last send completed, after one more event. -/
def noteWritten (lib : WebsocketLibrary) (ws : Websocket) (e : Event) (ds : List Bytes) :
    List Bytes :=
  match e with
  | .start => handshakeTexts lib ws
  | .write data | .writeNocopy data => ds ++ [data]
  | .sent | .sendError => replies lib ws e
  | _ => ds ++ replies lib ws e

/-- A websocket, and the data written since its last send completed. -/
def fireNoting (lib : WebsocketLibrary) :
    Websocket × List Bytes → Event → Option (Websocket × List Bytes) :=
  tracked (fire lib) (noteWritten lib)

/-- Data of no bytes is not kept. -/
def nonEmpty (ds : List Bytes) : List Bytes := ds.filter (· ≠ [])

theorem nonEmpty_append (ds es : List Bytes) : nonEmpty (ds ++ es) = nonEmpty ds ++ nonEmpty es :=
  List.filter_append ds es

theorem flatten_nonEmpty (ds : List Bytes) : (nonEmpty ds).flatten = ds.flatten := by
  unfold nonEmpty
  induction ds with
  | nil => rfl
  | cons d ds ih =>
    rw [List.filter_cons, List.flatten_cons]
    split
    · rw [List.flatten_cons, ih]
    · rename_i hd
      have hnil : d = [] := by simpa using hd
      rw [hnil, List.nil_append, ih]

/-- The payload: the slot for the header, and the data `ds`. -/
structure Pending (slot : Bytes) (ds : List Bytes) (ws : Websocket) : Prop where
  buffers : ws.payloadBuffers = slot :: nonEmpty ds
  length : ws.payloadLength = ds.flatten.length

/-- What `write` adds. -/
theorem write_payload (ws : Websocket) (data : Bytes) :
    (ws.write data).payloadBuffers = ws.payloadBuffers ++ nonEmpty [data] ∧
      (ws.write data).payloadLength = ws.payloadLength + data.length ∧
      (ws.write data).sent = ws.sent := by
  cases data with
  | nil => exact ⟨(List.append_nil _).symm, rfl, rfl⟩
  | cons c cs => exact ⟨rfl, rfl, rfl⟩

theorem Pending.write {slot : Bytes} {ds : List Bytes} (h : Pending slot ds ws) (data : Bytes) :
    Pending slot (ds ++ [data]) (ws.write data) := by
  obtain ⟨hbuf, hlen, _⟩ := write_payload ws data
  refine ⟨?_, ?_⟩
  · rw [hbuf, h.buffers, nonEmpty_append, List.cons_append]
  · rw [hlen, h.length, List.flatten_append, List.flatten_singleton, List.length_append]

theorem Pending.congr {slot : Bytes} {ds : List Bytes} (h : Pending slot ds ws) {v : Websocket}
    (hbuf : v.payloadBuffers = ws.payloadBuffers) (hlen : v.payloadLength = ws.payloadLength) :
    Pending slot ds v :=
  ⟨hbuf.trans h.buffers, hlen.trans h.length⟩

/-- What is sent: the slot, and all the data. -/
theorem Pending.flatten {slot : Bytes} {ds : List Bytes} (h : Pending slot ds ws) :
    ws.payloadBuffers.flatten = slot ++ ds.flatten := by
  rw [h.buffers, List.flatten_cons, flatten_nonEmpty]

/-! ## The handshake -/

theorem writeAll_payload (ds : List Bytes) (ws : Websocket) :
    (ds.foldl Websocket.write ws).payloadBuffers = ws.payloadBuffers ++ nonEmpty ds ∧
      (ds.foldl Websocket.write ws).payloadLength = ws.payloadLength + ds.flatten.length ∧
      (ds.foldl Websocket.write ws).sent = ws.sent := by
  induction ds generalizing ws with
  | nil => exact ⟨(List.append_nil _).symm, rfl, rfl⟩
  | cons d ds ih =>
    obtain ⟨h1, h2, h3⟩ := write_payload ws d
    obtain ⟨i1, i2, i3⟩ := ih (ws.write d)
    refine ⟨?_, ?_, i3.trans h3⟩
    · rw [List.foldl_cons, i1, h1, List.append_assoc, ← nonEmpty_append, List.singleton_append]
    · rw [List.foldl_cons, i2, h2, List.flatten_cons, List.length_append, Nat.add_assoc]

theorem prepareHandshake_eq (lib : WebsocketLibrary) (ws : Websocket) :
    ws.prepareHandshake lib = (handshakeTexts lib ws).foldl Websocket.write ws := by
  unfold prepareHandshake handshakeTexts writeNocopy
  dsimp only
  rw [List.cons_append, List.foldl_cons, List.foldl_append, List.foldl_cons, List.foldl_nil]
  congr 1
  generalize lib.makeResponseHeaders _ = headers
  generalize ws.write lib.makeResponseLine = ws₁
  induction headers generalizing ws₁ with
  | nil => rfl
  | cons ha headers ih =>
    rw [List.foldl_cons, List.flatMap_cons, List.foldl_append, ih]
    rfl

/-! ## The invariant -/

/-- The slot of the payload when a write is under way: a header, or nothing for a ping. -/
def SlotSent (lib : WebsocketLibrary) (ds : List Bytes) (slot : Bytes) : Prop :=
  slot = [] ∨ ∃ msgType, slot = lib.makeHeader msgType ds.flatten.length

/-- What a websocket is about to send, when `ds` has been written since its last send. -/
def Output (lib : WebsocketLibrary) (ws : Websocket) (ds : List Bytes) : Prop :=
  match ws.phase with
  | .created => ws.payloadBuffers = [] ∧ ws.payloadLength = 0 ∧ ds = []
  -- there is no slot in front of the handshake
  | .sending .onOpen => ws.payloadBuffers = nonEmpty ds ∧ ws.payloadLength = ds.flatten.length
  | .posted (.sendInternal .onOpen) => False
  | .posted (.sendInternal _) => ∃ msgType, Pending (lib.makeHeader msgType ds.flatten.length) ds ws
  | .sending _ => ∃ slot, SlotSent lib ds slot ∧ Pending slot ds ws
  | .application | .receiving | .posted .processReceiveBuffer | .closing | .closed => Pending [] ds ws

theorem clearPayload_pending (ws : Websocket) : Pending [] [] ws.clearPayload := ⟨rfl, rfl⟩

theorem clearFramesCache_lateStatus (lib : WebsocketLibrary) (ws : Websocket) :
    (ws.clearFramesCache lib).lateStatus = ws.lateStatus := by
  unfold clearFramesCache
  dsimp only
  split <;> rfl

theorem clearFramesCache_payload (lib : WebsocketLibrary) (ws : Websocket) :
    (ws.clearFramesCache lib).payloadBuffers = ws.payloadBuffers ∧
      (ws.clearFramesCache lib).payloadLength = ws.payloadLength ∧
      (ws.clearFramesCache lib).sent = ws.sent := by
  unfold clearFramesCache
  cases ws.frames.getLast? <;> exact ⟨rfl, rfl, rfl⟩

theorem clearPayload_clearFramesCache (lib : WebsocketLibrary) (ws : Websocket) :
    (ws.clearPayload.clearFramesCache lib).receiveBuffer = (ws.clearFramesCache lib).receiveBuffer := by
  rw [clearFramesCache_receiveBuffer, clearFramesCache_receiveBuffer]
  rfl

theorem pingReply_nil {b : Bytes} (h : pingInFront lib b = false) : pingReply lib b = [] := by
  unfold pingReply
  rw [if_neg (fun hp => by rw [h] at hp; exact Bool.false_ne_true hp.1)]

variable {ds : List Bytes}

/-- What `process_receive_buffer` leaves to send: nothing new, or the payload of a ping. -/
theorem Pending.process (lib : WebsocketLibrary) (h : Pending [] ds ws) :
    Pending [] (ds ++ pingReply lib ws.receiveBuffer) (ws.processReceiveBuffer lib) ∧
      Output lib (ws.processReceiveBuffer lib) (ds ++ pingReply lib ws.receiveBuffer) := by
  have hp := processReceiveBuffer_processed lib ws
  generalize ws.processReceiveBuffer lib = ws' at hp ⊢
  cases hp with
  | close hping status =>
    rw [pingReply_nil hping, List.append_nil]
    exact ⟨h.congr rfl rfl, h.congr rfl rfl⟩
  | wait hping =>
    rw [pingReply_nil hping, List.append_nil]
    exact ⟨h.congr rfl rfl, h.congr rfl rfl⟩
  | fragment hping =>
    rw [pingReply_nil hping, List.append_nil]
    exact ⟨h.congr rfl rfl, h.congr rfl rfl⟩
  | message hping =>
    rw [pingReply_nil hping, List.append_nil]
    exact ⟨h.congr rfl rfl, h.congr rfl rfl⟩
  | closeFrame hping =>
    rw [pingReply_nil hping, List.append_nil]
    exact ⟨h.congr rfl rfl, h.congr rfl rfl⟩
  | ping hping =>
    have hpending : Pending [] (ds ++ pingReply lib ws.receiveBuffer)
        ((holding ws).onPing (lib.frame ws.receiveBuffer)) := by
      unfold pingReply onPing
      by_cases hlen : 0 < (lib.frame ws.receiveBuffer).payloadLength
      · rw [if_pos ⟨hping, hlen⟩, if_pos hlen]
        exact ((h.congr (v := holding ws) rfl rfl).write _).congr rfl rfl
      · rw [if_neg (fun hl => hlen hl.2), if_neg hlen, List.append_nil]
        exact h.congr rfl rfl
    exact ⟨hpending, [], Or.inl rfl, hpending⟩

/-- The same for `receive`. -/
theorem Pending.receive (lib : WebsocketLibrary) (h : Pending [] ds ws) :
    Pending [] (ds ++ pingReply lib (ws.clearFramesCache lib).receiveBuffer) (ws.receive lib) ∧
      Output lib (ws.receive lib) (ds ++ pingReply lib (ws.clearFramesCache lib).receiveBuffer) := by
  obtain ⟨hbuf, hlen, _⟩ := clearFramesCache_payload lib ws
  exact (h.congr hbuf hlen).process lib

/-- When a write has completed, the payload is empty; only a ping that is next in the receive
buffer fills it again at once. -/
theorem sendCompletes_pending (lib : WebsocketLibrary) {next : AfterSend}
    (hp : ws.phase = .sending next) :
    Pending [] (replies lib ws .sent) (ws.sendCompletes lib next) ∧
      Output lib (ws.sendCompletes lib next) (replies lib ws .sent) := by
  have hclear := clearPayload_pending ws
  unfold replies looksAt
  rw [hp]
  cases next with
  | onOpen => exact ⟨hclear.congr rfl rfl, hclear.congr rfl rfl⟩
  | handler => exact ⟨hclear.congr rfl rfl, hclear.congr rfl rfl⟩
  | receive =>
    have hreceive := hclear.receive lib
    rw [List.nil_append, clearPayload_clearFramesCache] at hreceive
    exact hreceive

/-- A payload gets its header. -/
theorem Pending.prepareHeader (h : Pending [] ds ws) (msgType : FrameType) :
    Pending (lib.makeHeader msgType ds.flatten.length) ds (ws.prepareHeader lib msgType) := by
  refine ⟨?_, h.length⟩
  show ws.payloadBuffers.set 0 (lib.makeHeader msgType ws.payloadLength) = _
  rw [h.buffers, h.length]
  rfl

/-- **Every event keeps what is to be sent in order.** -/
theorem Output.fired (h : Output lib ws ds) {e : Event} (hf : Fired lib ws e ws') :
    Output lib ws' (noteWritten lib ws e ds) := by
  unfold Output at h
  unfold noteWritten replies looksAt
  have hkeep : ∀ {v}, Output lib v ds → Output lib v (ds ++ []) := by
    intro v hv
    rw [List.append_nil]
    exact hv
  cases hf with
  | start hp =>
    rw [hp] at h ⊢
    obtain ⟨hbuf, hlen, _⟩ := h
    obtain ⟨h1, h2, _⟩ := writeAll_payload (handshakeTexts lib ws) ws
    show (ws.prepareHandshake lib).payloadBuffers = _ ∧ (ws.prepareHandshake lib).payloadLength = _
    rw [prepareHandshake_eq, h1, h2, hbuf, hlen, Nat.zero_add]
    exact ⟨rfl, rfl⟩
  | posted task hp =>
    rw [hp] at h ⊢
    cases task with
    | processReceiveBuffer => exact (h.process lib).2
    | sendInternal next =>
      cases next with
      | onOpen => exact h.elim
      | receive =>
        obtain ⟨msgType, hpending⟩ := h
        exact hkeep ⟨_, Or.inr ⟨msgType, rfl⟩, hpending.congr rfl rfl⟩
      | handler =>
        obtain ⟨msgType, hpending⟩ := h
        exact hkeep ⟨_, Or.inr ⟨msgType, rfl⟩, hpending.congr rfl rfl⟩
  | sent next hp => exact (sendCompletes_pending lib hp).2
  | sendError next hp =>
    rw [hp]
    cases next <;> exact (clearPayload_pending ws).congr rfl rfl
  | read data hp hne hle =>
    rw [hp] at h ⊢
    dsimp only
    unfold consume
    split
    · exact hkeep (h.congr rfl rfl)
    · exact ((h.congr (v := ws.addToReceiveBuffer data) rfl rfl).process lib).2
  | readError hp =>
    rw [hp] at h ⊢
    exact hkeep (h.congr rfl rfl)
  | write data hp =>
    rw [hp] at h
    unfold Output
    rw [write_phase, hp]
    exact h.write data
  | writeNocopy data hp =>
    rw [hp] at h
    unfold Output writeNocopy
    rw [write_phase, hp]
    exact h.write data
  | send msgType hp =>
    rw [hp] at h ⊢
    exact hkeep ⟨msgType, (h.prepareHeader msgType).congr rfl rfl⟩
  | sendMessage msgType hp =>
    rw [hp] at h ⊢
    exact hkeep ⟨msgType, (h.prepareHeader msgType).congr rfl rfl⟩
  | receive hp =>
    rw [hp] at h ⊢
    exact (h.receive lib).2
  | close hp =>
    rw [hp] at h ⊢
    exact hkeep (h.congr rfl rfl)
  | drop hp =>
    rw [hp] at h ⊢
    exact hkeep (h.congr rfl rfl)
  | closeSent hp =>
    rw [hp] at h ⊢
    exact hkeep (h.congr rfl rfl)

/-! ## One message, one frame -/

section runs

variable {req : HttpRequest} {maxSize maxCount : Nat} {late : Option (Vector UInt8 4)} {es : List Event}

theorem run_output (h : exec (fireNoting lib) (.new req maxSize maxCount, []) es = some (ws, ds)) :
    Output lib ws ds := by
  refine exec_invariant (fun _ s => Output lib s.1 s.2) ?_ ?_ h
  · exact ⟨rfl, rfl, rfl⟩
  · intro _ s e s' _ hout hf
    obtain ⟨hfire, hnote⟩ := tracked_eq_some.mp hf
    rw [← hnote]
    exact hout.fired (fire_iff.mp hfire)

theorem Output.length (h : Output lib ws ds) : ws.payloadLength = ds.flatten.length := by
  unfold Output at h
  split at h
  · obtain ⟨_, hlen, rfl⟩ := h
    exact hlen
  · exact h.2
  · exact h.elim
  · obtain ⟨_, hpending⟩ := h
    exact hpending.length
  · obtain ⟨_, _, hpending⟩ := h
    exact hpending.length
  all_goals exact h.length

/-- Once the handshake has been sent, the first buffer is the slot for the header. -/
theorem Output.slot (h : Output lib ws ds) (hcreated : ws.phase ≠ .created)
    (hopen : ws.phase ≠ .sending .onOpen) :
    ∃ slot, SlotSent lib ds slot ∧ ws.payloadBuffers = slot :: nonEmpty ds := by
  unfold Output at h
  split at h
  · rename_i hp
    exact absurd hp hcreated
  · rename_i hp
    exact absurd hp hopen
  · exact h.elim
  · obtain ⟨msgType, hpending⟩ := h
    exact ⟨_, Or.inr ⟨msgType, rfl⟩, hpending.buffers⟩
  · obtain ⟨slot, hslot, hpending⟩ := h
    exact ⟨slot, hslot, hpending.buffers⟩
  all_goals exact ⟨[], Or.inl rfl, h.buffers⟩

/-- The application's send is followed by the write of one frame, and by nothing else. -/
theorem send_frame (lib : WebsocketLibrary) (h : Pending [] ds ws) (msgType : FrameType)
    (next : AfterSend) :
    ∃ ws₂, (∀ e ws', (ws.sendMessage lib msgType next).fire lib e = some ws' ↔
        e = .posted ∧ ws' = ws₂) ∧
      ws₂.sent = ws.sent ++ [lib.makeHeader msgType ds.flatten.length ++ ds.flatten] := by
  refine ⟨(ws.sendMessage lib msgType next).sendInternal next, ?_, ?_⟩
  · intro e ws'
    rw [fire_iff]
    constructor
    · intro hf
      cases hf with
      | posted task hp =>
        cases hp
        exact ⟨rfl, rfl⟩
      | read data hp => cases hp
      | _ => rename_i hp; cases hp
    · rintro ⟨rfl, rfl⟩
      exact .posted (.sendInternal next) rfl
  · show ws.sent ++ [(ws.prepareHeader lib msgType).payloadBuffers.flatten] = _
    rw [(h.prepareHeader msgType).flatten]

/-- **Every message of the application is one exact frame.** `ds` is the data written since the
last send completed. Whoever holds the websocket finds the empty slot and the data; a send is
followed by the write of the header for all the data, and the data. The slot never holds data,
the length is always that of the data, and a send that completes leaves the slot alone, or
with what a ping that is next in the receive buffer writes at once. -/
theorem message_framed (lib : WebsocketLibrary) (req : HttpRequest) (maxSize maxCount : Nat)
    (es : List Event) (ws : Websocket) (ds : List Bytes)
    (h : exec (fireNoting lib) (.new req maxSize maxCount, []) es = some (ws, ds)) :
    ws.payloadLength = ds.flatten.length ∧
      (ws.phase ≠ .created → ws.phase ≠ .sending .onOpen →
        ∃ slot, SlotSent lib ds slot ∧ ws.payloadBuffers = slot :: nonEmpty ds) ∧
      (ws.phase = .application → ws.payloadBuffers = [] :: nonEmpty ds ∧
        ∀ msgType e, e = .send msgType ∨ e = .sendMessage msgType →
          ∃ ws₁ ws₂, ws.fire lib e = some ws₁ ∧
            (∀ e' ws', ws₁.fire lib e' = some ws' ↔ e' = .posted ∧ ws' = ws₂) ∧
            ws₂.sent = ws.sent ++ [lib.makeHeader msgType ds.flatten.length ++ ds.flatten]) ∧
      (∀ ws₁, ws.fire lib .sent = some ws₁ →
        ws₁.payloadBuffers = [] :: nonEmpty (replies lib ws .sent) ∧
          ws₁.payloadLength = (replies lib ws .sent).flatten.length) := by
  have hout := run_output h
  refine ⟨hout.length, hout.slot, ?_, ?_⟩
  · intro hp
    have hpending : Pending [] ds ws := by
      unfold Output at hout
      rwa [hp] at hout
    refine ⟨hpending.buffers, ?_⟩
    rintro msgType e (rfl | rfl)
    · obtain ⟨ws₂, hnext, hsent⟩ := send_frame lib hpending msgType .receive
      exact ⟨_, ws₂, fire_iff.mpr (.send msgType hp), hnext, hsent⟩
    · obtain ⟨ws₂, hnext, hsent⟩ := send_frame lib hpending msgType .handler
      exact ⟨_, ws₂, fire_iff.mpr (.sendMessage msgType hp), hnext, hsent⟩
  · intro ws₁ hf
    cases fire_iff.mp hf with
    | sent next hp =>
      have hpending := (sendCompletes_pending lib hp).1
      exact ⟨hpending.buffers, hpending.length⟩

theorem message_framed_abc :
    ∃ ws ws₁ ws₂, exec (fireNoting shortFrames) (.new handshakeRequest 8192 16, [])
        [.start, .sent, .write (str "a"), .writeNocopy [], .write (str "bc")] =
          some (ws, [str "a", [], str "bc"]) ∧
      ws.fire shortFrames (.send .text) = some ws₁ ∧ ws₁.fire shortFrames .posted = some ws₂ ∧
      ws₂.sent = ws.sent ++ [[0x81, 3] ++ str "abc"] := by
  have hsome : ((exec (fireNoting shortFrames) (.new handshakeRequest 8192 16, [])
      [.start, .sent, .write (str "a"), .writeNocopy [], .write (str "bc")]).map
        fun s => (s.1.phase, s.2)) = some (.application, [str "a", [], str "bc"]) := by
    decide +kernel
  obtain ⟨⟨ws, ds⟩, hrun, hfields⟩ := Option.map_eq_some_iff.mp hsome
  obtain ⟨hphase, rfl⟩ : ws.phase = _ ∧ ds = _ := by simpa using hfields
  obtain ⟨_, _, happ, _⟩ := message_framed shortFrames _ _ _ _ ws _ hrun
  obtain ⟨ws₁, ws₂, hsend, hnext, hsent⟩ := (happ hphase).2 .text (.send .text) (Or.inl rfl)
  exact ⟨ws, ws₁, ws₂, hrun, hsend, (hnext .posted ws₂).mpr ⟨rfl, rfl⟩, hsent⟩

/-! ## Everything that is sent -/

/-- The frame of the server with this payload. -/
def serverFrame (lib : WebsocketLibrary) (msgType : FrameType) (payload : Bytes) : Bytes :=
  lib.makeHeader msgType payload.length ++ payload

/-- The event does not come upon a ping. -/
def NoPing (lib : WebsocketLibrary) (ws : Websocket) (e : Event) : Prop :=
  ∀ b ∈ looksAt lib ws e, pingInFront lib b = false

instance (ws : Websocket) (e : Event) : Decidable (NoPing lib ws e) :=
  inferInstanceAs (Decidable (∀ b ∈ looksAt lib ws e, pingInFront lib b = false))

/-- The event does not close the websocket, or the socket takes the close at once. -/
def ClosesAtOnce (lib : WebsocketLibrary) (ws : Websocket) (e : Event) : Prop :=
  ws.closesAt lib e = true → ws.lateStatus = none

instance (ws : Websocket) (e : Event) : Decidable (ClosesAtOnce lib ws e) :=
  inferInstanceAs (Decidable (_ → _))

/-- Neither is a ping answered nor a close sent late. -/
def SendsWhole (lib : WebsocketLibrary) (ws : Websocket) (e : Event) : Prop :=
  NoPing lib ws e ∧ ClosesAtOnce lib ws e

instance (ws : Websocket) (e : Event) : Decidable (SendsWhole lib ws e) :=
  inferInstanceAs (Decidable (_ ∧ _))

theorem onClose_sent (hlate : ws.lateStatus = none) (status : CloseStatus) :
    (ws.onClose status).sent = ws.sent ++ [status.bytes] := by
  show ws.sent ++ [ws.statusBytes status] = _
  unfold statusBytes
  rw [hlate]

/-- Without a ping, `process_receive_buffer` sends nothing or a close frame. -/
theorem process_sent (hping : pingInFront lib ws.receiveBuffer = false)
    (hlate : ws.closesOnBuffer lib = true → ws.lateStatus = none) :
    (ws.processReceiveBuffer lib).phase ≠ .created ∧ ((ws.processReceiveBuffer lib).sent = ws.sent ∨
      ∃ status : CloseStatus, (ws.processReceiveBuffer lib).sent = ws.sent ++ [status.bytes]) := by
  have hp := processReceiveBuffer_processed lib ws
  generalize ws.processReceiveBuffer lib = ws' at hp ⊢
  cases hp with
  | close _ status hcloses =>
    exact ⟨(fun h => by cases h), Or.inr ⟨status, onClose_sent (hlate hcloses) status⟩⟩
  | wait _ => exact ⟨(fun h => by cases h), Or.inl rfl⟩
  | fragment _ => exact ⟨(fun h => by cases h), Or.inl rfl⟩
  | message _ => exact ⟨(fun h => by cases h), Or.inl rfl⟩
  | closeFrame _ _ status hcloses =>
    have hsent : ((holding ws).onClose status).sent = ws.sent ++ [status.bytes] :=
      onClose_sent (hlate hcloses) status
    exact ⟨(fun h => by cases h), Or.inr ⟨status, hsent⟩⟩
  | ping hping' =>
    rw [hping'] at hping
    cases hping

theorem receive_sent (hping : pingInFront lib (ws.clearFramesCache lib).receiveBuffer = false)
    (hlate : (ws.clearFramesCache lib).closesOnBuffer lib = true → ws.lateStatus = none) :
    (ws.receive lib).phase ≠ .created ∧ ((ws.receive lib).sent = ws.sent ∨
      ∃ status : CloseStatus, (ws.receive lib).sent = ws.sent ++ [status.bytes]) := by
  have h := process_sent hping fun hcloses => (clearFramesCache_lateStatus lib ws).trans (hlate hcloses)
  rwa [(clearFramesCache_payload lib ws).2.2] at h

/-- **What an event sends behind the handshake**, if it does not come upon a ping and does not close
late: nothing, or one frame. -/
theorem fired_sent (hclose : lib.makeHeader .close 2 = [0x88, 0x02]) (hout : Output lib ws ds)
    {e : Event} (hf : Fired lib ws e ws') (hwhole : SendsWhole lib ws e) (hstart : ws.phase ≠ .created) :
    ws'.phase ≠ .created ∧ (ws'.sent = ws.sent ∨
      ∃ msgType payload, ws'.sent = ws.sent ++ [serverFrame lib msgType payload]) := by
  have hframe : ∀ status : CloseStatus, ∃ payload, status.bytes = serverFrame lib .close payload := by
    intro status
    refine ⟨status.bytes.drop 2, ?_⟩
    cases status <;> exact (congrArg (· ++ _) hclose).symm
  have hlift : ∀ {v : Websocket}, v.phase ≠ .created ∧ (v.sent = ws.sent ∨
      ∃ status : CloseStatus, v.sent = ws.sent ++ [status.bytes]) →
      v.phase ≠ .created ∧ (v.sent = ws.sent ∨
        ∃ msgType payload, v.sent = ws.sent ++ [serverFrame lib msgType payload]) := by
    rintro v ⟨hp, hsame | ⟨status, hsent⟩⟩
    · exact ⟨hp, Or.inl hsame⟩
    · obtain ⟨payload, hpayload⟩ := hframe status
      exact ⟨hp, Or.inr ⟨.close, payload, hpayload ▸ hsent⟩⟩
  have hclosed : ∀ (v : Websocket) (status : CloseStatus), v.sent = ws.sent → v.lateStatus = none →
      (v.onClose status).phase ≠ .created ∧ ((v.onClose status).sent = ws.sent ∨
        ∃ msgType payload, (v.onClose status).sent = ws.sent ++ [serverFrame lib msgType payload]) := by
    intro v status hsent hlate
    have hclose := onClose_sent hlate status
    rw [hsent] at hclose
    exact hlift ⟨fun h => (by cases h), Or.inr ⟨status, hclose⟩⟩
  obtain ⟨hping, hlate⟩ := hwhole
  unfold NoPing looksAt at hping
  unfold ClosesAtOnce closesAt at hlate
  unfold Output at hout
  cases hf with
  | start hp => exact absurd hp hstart
  | posted task hp =>
    rw [hp] at hout hping hlate
    cases task with
    | processReceiveBuffer => exact hlift (process_sent (hping _ rfl) hlate)
    | sendInternal next =>
      -- the application's message, with its header in the slot
      have hpending : ∃ msgType, Pending (lib.makeHeader msgType ds.flatten.length) ds ws := by
        cases next with
        | onOpen => exact hout.elim
        | receive => exact hout
        | handler => exact hout
      obtain ⟨msgType, hpending⟩ := hpending
      refine ⟨(fun h => by cases h), Or.inr ⟨msgType, ds.flatten, ?_⟩⟩
      show ws.sent ++ [ws.payloadBuffers.flatten] = _
      rw [hpending.flatten]
      rfl
  | sent next hp =>
    rw [hp] at hping hlate
    cases next with
    | onOpen => exact ⟨(fun h => by cases h), Or.inl rfl⟩
    | handler => exact ⟨(fun h => by cases h), Or.inl rfl⟩
    | receive =>
      have hfront := hping _ rfl
      rw [← clearPayload_clearFramesCache] at hfront
      exact hlift (receive_sent hfront hlate)
  | sendError next hp =>
    rw [hp] at hlate
    exact hclosed ws.clearPayload .error rfl (hlate (by cases next <;> rfl))
  | read data hp hne hle =>
    rw [hp] at hping hlate
    dsimp only at hping hlate
    unfold consume
    split
    · rename_i hfull
      exact hclosed ws .overflow rfl (hlate (by rw [hfull]; rfl))
    · rename_i hroom
      rw [if_neg hroom] at hping
      refine hlift (process_sent
        (show pingInFront lib (ws.addToReceiveBuffer data).receiveBuffer = false from hping _ rfl)
        fun hcloses => hlate ?_)
      rw [hcloses, Bool.or_true]
  | readError hp =>
    rw [hp] at hlate
    exact hclosed ws .error rfl (hlate rfl)
  | write data hp =>
    rw [write_phase, (write_payload ws data).2.2]
    exact ⟨hstart, Or.inl rfl⟩
  | writeNocopy data hp =>
    unfold writeNocopy
    rw [write_phase, (write_payload ws data).2.2]
    exact ⟨hstart, Or.inl rfl⟩
  | send msgType hp => exact ⟨(fun h => by cases h), Or.inl rfl⟩
  | sendMessage msgType hp => exact ⟨(fun h => by cases h), Or.inl rfl⟩
  | receive hp =>
    rw [hp] at hping hlate
    exact hlift (receive_sent (hping _ rfl) hlate)
  | close hp =>
    rw [hp] at hlate
    exact hclosed ws .normal rfl (hlate rfl)
  | drop hp => exact ⟨(fun h => by cases h), Or.inl rfl⟩
  | closeSent hp => exact ⟨(fun h => by cases h), Or.inl rfl⟩

/-- A websocket that has sent its handshake, and frames since. -/
def SentFrames (lib : WebsocketLibrary) (ws : Websocket) : Prop :=
  ws.phase ≠ .created ∧ ∃ handshake frames, ws.sent = handshake :: frames ∧
    ∀ b ∈ frames, ∃ msgType payload, b = serverFrame lib msgType payload

theorem SentFrames.fired (hclose : lib.makeHeader .close 2 = [0x88, 0x02]) (hout : Output lib ws ds)
    (h : SentFrames lib ws) {e : Event} (hf : Fired lib ws e ws') (hwhole : SendsWhole lib ws e) :
    SentFrames lib ws' := by
  obtain ⟨hp, handshake, frames, hsent, hframes⟩ := h
  obtain ⟨hp', hsame | ⟨msgType, payload, hmore⟩⟩ := fired_sent hclose hout hf hwhole hp
  · exact ⟨hp', handshake, frames, hsame.trans hsent, hframes⟩
  · refine ⟨hp', handshake, frames ++ [serverFrame lib msgType payload], ?_, ?_⟩
    · rw [hmore, hsent, List.cons_append]
    · intro b hb
      rcases List.mem_append.mp hb with hb | hb
      · exact hframes b hb
      · exact ⟨msgType, payload, List.mem_singleton.mp hb⟩

/-- The application closes, and the socket is busy. -/
example : (exec (fire shortFrames) (.new handshakeRequest 8192 16 (some #v[0xff, 0x7f, 0, 0]))
    [.start, .sent, .close]).map (·.sent.tail) = some [[0xff, 0x7f, 0, 0]] := by
  decide +kernel

end runs

end Pion.Proof
