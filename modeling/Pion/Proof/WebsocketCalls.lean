import Pion.Proof.WebsocketInput

/-!
# The calls of a websocket's handlers

The application is called when a websocket is open, for each message, and when it is closed. It is
told first that the websocket is open, if at all, and last that it is closed, unless it has let go of
the websocket itself.
-/

namespace Pion.Proof

open Pion Lib Websocket

variable {lib : WebsocketLibrary} {ws ws' : Websocket}

/-- The calls of the handlers that the application has given to the server. -/
inductive WsCall where
  | opened
  | message (m : WsMessage)
  | closed
  deriving DecidableEq

/-- What the handlers are called with in an event. -/
def wsCalls (lib : WebsocketLibrary) (ws : Websocket) (e : Event) : List WsCall :=
  match ws.phase, e with
  | .sending .onOpen, .sent => [.opened]
  | .closing, .closeSent => [.closed]
  | _, _ =>
    match ws.fire lib e with
    | some ws' => (ws'.messages.drop ws.messages.length).map .message
    | none => []

/-- The machine of the websocket, with the calls so far. -/
def fireCalling (lib : WebsocketLibrary) : Websocket × List WsCall → Event → Option (Websocket × List WsCall) :=
  tracked (fire lib) fun ws e cs => cs ++ wsCalls lib ws e

/-! ## In front of `on_open` -/

/-- The websocket has not been given to `on_open` yet. -/
def BeforeOpen : WsPhase → Prop
  | .created | .sending .onOpen | .posted (.sendInternal .onOpen) => True
  | .application | .posted _ | .sending _ | .receiving | .closing | .closed => False

/-- The websocket goes on behind `on_open`, and has all its messages still. -/
structure GoesOn (ws ws' : Websocket) : Prop where
  messages : ws.messages <+: ws'.messages
  open_behind : ¬ BeforeOpen ws'.phase
  open_end : ws'.phase ≠ .closed

theorem goesOn_of_eq (h : ws'.messages = ws.messages) (hopen : ¬ BeforeOpen ws'.phase)
    (hclosed : ws'.phase ≠ .closed) : GoesOn ws ws' := ⟨h ▸ List.prefix_refl _, hopen, hclosed⟩

theorem GoesOn.of_messages {v : Websocket} (h : GoesOn v ws') (hm : v.messages = ws.messages) : GoesOn ws ws' :=
  ⟨hm ▸ h.messages, h.open_behind, h.open_end⟩

theorem goesOn_processReceiveBuffer (lib : WebsocketLibrary) (ws : Websocket) :
    GoesOn ws (ws.processReceiveBuffer lib) := by
  have hp := processReceiveBuffer_processed lib ws
  generalize ws.processReceiveBuffer lib = ws' at hp ⊢
  cases hp with
  | wait => exact goesOn_of_eq rfl id (by simp [receiveInternal])
  | close => exact goesOn_of_eq rfl id (by simp [onClose, sendClose])
  | fragment => exact goesOn_of_eq rfl id (by simp)
  | message => exact ⟨List.prefix_append _ _, id, by simp [onMessage]⟩
  | ping => exact goesOn_of_eq (onPing_sameInput (holding ws) _).messages id (by simp [onPing, sendInternal])
  | closeFrame => exact goesOn_of_eq rfl id (by simp [onClose, sendClose])

theorem goesOn_receive (lib : WebsocketLibrary) (ws : Websocket) : GoesOn ws (ws.receive lib) :=
  (goesOn_processReceiveBuffer lib _).of_messages (clearFramesCache_messages lib ws)

theorem goesOn_consume (lib : WebsocketLibrary) (ws : Websocket) (buf : Bytes) : GoesOn ws (ws.consume lib buf) := by
  unfold consume
  split
  · exact goesOn_of_eq rfl id (by simp [onClose, sendClose])
  · exact (goesOn_processReceiveBuffer lib (ws.addToReceiveBuffer buf)).of_messages rfl

theorem goesOn_write (h : ws.phase = .application) (data : Bytes) : GoesOn ws (ws.write data) := by
  have hphase := write_phase ws data
  refine goesOn_of_eq (write_sameInput ws data).messages ?_ ?_ <;> rw [hphase, h]
  · exact id
  · simp

/-! ## One event -/

/-- What an event does to the calls. -/
inductive CallStep (lib : WebsocketLibrary) (ws : Websocket) (e : Event) (ws' : Websocket) : Prop
  | starts (h : ws.phase = .created) (h' : ws'.phase = .sending .onOpen) (hm : ws'.messages = ws.messages)
      (hcalls : wsCalls lib ws e = [])
  | opens (h : ws.phase = .sending .onOpen) (h' : ws'.phase = .application) (hm : ws'.messages = ws.messages)
      (hcalls : wsCalls lib ws e = [.opened])
  | fails (h : ws.phase ≠ .closed) (h' : ws'.phase = .closing) (hm : ws'.messages = ws.messages)
      (hcalls : wsCalls lib ws e = [])
  | goesOn (h : ¬ BeforeOpen ws.phase) (hclosed : ws.phase ≠ .closed) (hclosing : ws.phase ≠ .closing)
      (h' : GoesOn ws ws')
      (hcalls : wsCalls lib ws e = (ws'.messages.drop ws.messages.length).map .message)
  | drops (h : ws.phase = .application) (he : e = .drop) (h' : ws'.phase = .closed)
      (hm : ws'.messages = ws.messages) (hcalls : wsCalls lib ws e = [])
  | closes (h : ws.phase = .closing) (h' : ws'.phase = .closed) (hm : ws'.messages = ws.messages)
      (hcalls : wsCalls lib ws e = [.closed])

/-- What an event calls the handlers with, if it is none of the two ends. -/
theorem wsCalls_eq {e : Event} (h : ws.fire lib e = some ws') (hopen : ws.phase = .sending .onOpen → e ≠ .sent)
    (hclose : ws.phase ≠ .closing) :
    wsCalls lib ws e = (ws'.messages.drop ws.messages.length).map .message := by
  unfold wsCalls
  split
  · rename_i hp
    exact absurd rfl (hopen hp)
  · rename_i hp
    exact absurd hp hclose
  · rw [h]

theorem wsCalls_nil {e : Event} (h : ws.fire lib e = some ws') (hopen : ws.phase = .sending .onOpen → e ≠ .sent)
    (hclose : ws.phase ≠ .closing) (hm : ws'.messages = ws.messages) : wsCalls lib ws e = [] := by
  rw [wsCalls_eq h hopen hclose, hm, List.drop_length]
  rfl

theorem callStep_of_fire {e : Event} (h : ws.fire lib e = some ws') (hposted : ws.phase ≠ .posted (.sendInternal .onOpen)) :
    CallStep lib ws e ws' := by
  have hcase := fire_iff.mp h
  cases hcase with
  | start hp =>
    have hm : (ws.start lib).messages = ws.messages := (start_sameInput lib ws).messages
    exact .starts hp rfl hm (wsCalls_nil h (by simp) (by simp [hp]) hm)
  | posted task hp =>
    have hgoes : GoesOn ws (ws.runPosted lib task) := by
      cases task with
      | processReceiveBuffer => exact goesOn_processReceiveBuffer lib ws
      | sendInternal next =>
        refine goesOn_of_eq rfl ?_ (by simp [runPosted, sendInternal])
        cases next with
        | onOpen => exact absurd hp hposted
        | receive | handler => exact id
    refine .goesOn ?_ (by simp [hp]) (by simp [hp]) hgoes (wsCalls_eq h (by simp) (by simp [hp]))
    rw [hp]
    cases task with
    | processReceiveBuffer => exact id
    | sendInternal next =>
      cases next with
      | onOpen => exact absurd hp hposted
      | receive | handler => exact id
  | sent next hp =>
    cases next with
    | onOpen => exact .opens hp rfl rfl (by simp [wsCalls, hp])
    | receive =>
      exact .goesOn (by rw [hp]; exact id) (by simp [hp]) (by simp [hp])
        ((goesOn_receive lib ws.clearPayload).of_messages rfl)
        (wsCalls_eq h (by simp [hp]) (by simp [hp]))
    | handler =>
      exact .goesOn (by rw [hp]; exact id) (by simp [hp]) (by simp [hp])
        (goesOn_of_eq rfl id (by simp [sendCompletes, runAfterSend]))
        (wsCalls_eq h (by simp [hp]) (by simp [hp]))
  | sendError next hp => exact .fails (by simp [hp]) rfl rfl (wsCalls_nil h (by simp) (by simp [hp]) rfl)
  | read data hp =>
    exact .goesOn (by rw [hp]; exact id) (by simp [hp]) (by simp [hp]) (goesOn_consume lib ws data)
      (wsCalls_eq h (by simp) (by simp [hp]))
  | readError hp => exact .fails (by simp [hp]) rfl rfl (wsCalls_nil h (by simp) (by simp [hp]) rfl)
  | write data hp =>
    exact .goesOn (by rw [hp]; exact id) (by simp [hp]) (by simp [hp]) (goesOn_write hp data)
      (wsCalls_eq h (by simp) (by simp [hp]))
  | writeNocopy data hp =>
    exact .goesOn (by rw [hp]; exact id) (by simp [hp]) (by simp [hp]) (goesOn_write hp data)
      (wsCalls_eq h (by simp) (by simp [hp]))
  | send msgType hp =>
    exact .goesOn (by rw [hp]; exact id) (by simp [hp]) (by simp [hp])
      (goesOn_of_eq rfl id (by simp [Websocket.send, sendMessage])) (wsCalls_eq h (by simp) (by simp [hp]))
  | sendMessage msgType hp =>
    exact .goesOn (by rw [hp]; exact id) (by simp [hp]) (by simp [hp])
      (goesOn_of_eq rfl id (by simp [sendMessage])) (wsCalls_eq h (by simp) (by simp [hp]))
  | receive hp =>
    exact .goesOn (by rw [hp]; exact id) (by simp [hp]) (by simp [hp]) (goesOn_receive lib ws)
      (wsCalls_eq h (by simp) (by simp [hp]))
  | close hp => exact .fails (by simp [hp]) rfl rfl (wsCalls_nil h (by simp) (by simp [hp]) rfl)
  | drop hp => exact .drops hp rfl rfl rfl (wsCalls_nil h (by simp) (by simp [hp]) rfl)
  | closeSent hp => exact .closes hp rfl rfl (by simp [wsCalls, hp])

/-! ## Runs -/

/-- The calls of a run, in order: that it is open, the messages, and that it is closed. -/
structure CallsInOrder (es : List Event) (ws : Websocket) (cs : List WsCall) (opened closed : Bool) : Prop where
  calls : cs = (if opened then [.opened] else []) ++ ws.messages.map .message ++ (if closed then [.closed] else [])
  not_opened : opened = false → ws.messages = [] ∧
    (BeforeOpen ws.phase ∨ ws.phase = .closing ∨ ws.phase = .closed)
  before : BeforeOpen ws.phase → opened = false
  closed_end : closed = true → ws.phase = .closed
  ended : ws.phase = .closed → closed = true ∨ .drop ∈ es
  not_posted : ws.phase ≠ .posted (.sendInternal .onOpen)

theorem CallsInOrder.step {es : List Event} {cs : List WsCall} {opened closed : Bool} {e : Event}
    (h : CallsInOrder es ws cs opened closed) (hstep : ws.fire lib e = some ws') :
    ∃ opened closed, CallsInOrder (es ++ [e]) ws' (cs ++ wsCalls lib ws e) opened closed := by
  have hopenPhase : ws.phase ≠ .closed → closed = false := fun hp =>
    Bool.eq_false_iff.mpr fun hc => hp (h.closed_end hc)
  have hcalls := h.calls
  cases callStep_of_fire hstep h.not_posted with
  | starts hp hp' hm hnone =>
    obtain rfl := hopenPhase (by simp [hp])
    obtain rfl := h.before (by rw [hp]; trivial)
    refine ⟨false, false, ⟨?_, fun _ => ⟨hm.trans (h.not_opened rfl).1, .inl ?_⟩, fun _ => rfl, fun hc => (by cases hc),
      fun hend => ?_, by simp [hp']⟩⟩
    · rw [hnone, hm, hcalls, List.append_nil]
    · rw [hp']
      trivial
    · rw [hp'] at hend
      cases hend
  | opens hp hp' hm hone =>
    obtain rfl := hopenPhase (by simp [hp])
    obtain rfl := h.before (by rw [hp]; trivial)
    refine ⟨true, false, ⟨?_, fun ho => (by cases ho), fun hb => ?_, fun hc => (by cases hc), fun hend => ?_, by simp [hp']⟩⟩
    · rw [hone, hm, hcalls, (h.not_opened rfl).1]
      rfl
    · rw [hp'] at hb
      exact hb.elim
    · rw [hp'] at hend
      cases hend
  | fails hp hp' hm hnone =>
    obtain rfl := hopenPhase hp
    refine ⟨opened, false, ⟨?_, fun ho => ⟨hm.trans (h.not_opened ho).1, .inr (.inl hp')⟩, fun hb => ?_,
      fun hc => (by cases hc), fun hend => ?_, by simp [hp']⟩⟩
    · rw [hnone, hm, hcalls, List.append_nil]
    · rw [hp'] at hb
      exact hb.elim
    · rw [hp'] at hend
      cases hend
  | goesOn hp hclosed hclosing hgoes hmore =>
    obtain rfl := hopenPhase hclosed
    -- the websocket is behind `on_open`
    obtain rfl : opened = true := by
      by_contra ho
      rcases (h.not_opened (eq_false_of_ne_true ho)).2 with hb | hc | hc
      · exact hp hb
      · exact hclosing hc
      · exact hclosed hc
    obtain ⟨more, hmessages⟩ := hgoes.messages
    refine ⟨true, false, ⟨?_, fun ho => (by cases ho), fun hb => absurd hb hgoes.open_behind, fun hc => (by cases hc),
      fun hend => absurd hend hgoes.open_end, fun hposted => ?_⟩⟩
    · rw [hmore, ← hmessages, List.drop_left, hcalls, List.map_append]
      simp
    · have hnot := hgoes.open_behind
      rw [hposted] at hnot
      exact hnot trivial
  | drops hp he hp' hm hnone =>
    obtain rfl := hopenPhase (by simp [hp])
    refine ⟨opened, false, ⟨?_, fun ho => ⟨hm.trans (h.not_opened ho).1, .inr (.inr hp')⟩, fun hb => ?_,
      fun hc => (by cases hc), fun _ => .inr ?_, by simp [hp']⟩⟩
    · rw [hnone, hm, hcalls, List.append_nil]
    · rw [hp'] at hb
      exact hb.elim
    · rw [he]
      exact List.mem_append_right _ (List.mem_singleton_self _)
  | closes hp hp' hm hone =>
    obtain rfl := hopenPhase (by simp [hp])
    refine ⟨opened, true, ⟨?_, fun ho => ⟨hm.trans (h.not_opened ho).1, .inr (.inr hp')⟩, fun hb => ?_,
      fun _ => hp', fun _ => .inl rfl, by simp [hp']⟩⟩
    · rw [hone, hm, hcalls]
      simp
    · rw [hp'] at hb
      exact hb.elim

/--
**The calls come in order.** In every run of a websocket the application is told at most once that it
is open, before anything else; then come its messages, each once and in order; and it is told at most
once that it is closed, behind everything else. A websocket that has come to its end has told so,
unless it was the application that let go of it.
-/
theorem calls_in_order (lib : WebsocketLibrary) (req : HttpRequest) (maxSize maxCount : Nat) (es : List Event)
    (ws : Websocket) (cs : List WsCall)
    (h : exec (fireCalling lib) (.new req maxSize maxCount, []) es = some (ws, cs)) :
    ∃ opened closed : Bool,
      cs = (if opened then [.opened] else []) ++ ws.messages.map .message ++ (if closed then [.closed] else []) ∧
      (ws.messages ≠ [] → opened = true) ∧ (closed = true → ws.phase = .closed) ∧
      (ws.phase = .closed → closed = true ∨ .drop ∈ es) := by
  have hstart : CallsInOrder [] (.new req maxSize maxCount) [] false false :=
    ⟨rfl, fun _ => ⟨rfl, .inl trivial⟩, fun _ => rfl, fun hc => (by cases hc), fun hend => (by cases hend),
      by simp [Websocket.new]⟩
  have hinv := exec_invariant
    (fun es (s : Websocket × List WsCall) => ∃ opened closed, CallsInOrder es s.1 s.2 opened closed)
    ⟨false, false, hstart⟩ (fun es s e s' _ hs hstep => ?_) h
  · obtain ⟨opened, closed, hin⟩ := hinv
    refine ⟨opened, closed, hin.calls, fun hm => ?_, hin.closed_end, hin.ended⟩
    by_contra ho
    exact hm (hin.not_opened (eq_false_of_ne_true ho)).1
  · obtain ⟨opened, closed, hin⟩ := hs
    obtain ⟨hfire, hnote⟩ := tracked_eq_some.mp hstep
    obtain ⟨opened', closed', hin'⟩ := hin.step hfire
    exact ⟨opened', closed', hnote ▸ hin'⟩

/-- A message comes, and the application closes the websocket. -/
def closesAfterMessage : List Event :=
  [.start, .sent, .receive, .read (maskedFrame 0x81 (str "hi")), .close, .closeSent]

theorem calls_in_order_message : ∃ ws cs,
    exec (fireCalling shortFrames) (.new handshakeRequest 8192 16, []) closesAfterMessage = some (ws, cs) ∧
    cs = [.opened, .message ⟨.text, str "hi"⟩, .closed] ∧
    ∃ opened closed : Bool,
      cs = (if opened then [.opened] else []) ++ ws.messages.map .message ++ (if closed then [.closed] else []) ∧
      (ws.phase = .closed → closed = true ∨ .drop ∈ closesAfterMessage) := by
  have hsome : ((exec (fireCalling shortFrames) (.new handshakeRequest 8192 16, []) closesAfterMessage).map
      fun s => s.2) = some [.opened, .message ⟨.text, str "hi"⟩, .closed] := by decide +kernel
  obtain ⟨⟨ws, cs⟩, hrun, hcs⟩ := Option.map_eq_some_iff.mp hsome
  obtain ⟨opened, closed, hcalls, _, _, hend⟩ := calls_in_order shortFrames _ _ _ _ ws cs hrun
  exact ⟨ws, cs, hrun, hcs, opened, closed, hcalls, hend⟩

end Pion.Proof
