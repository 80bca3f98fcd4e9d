import Pion.Lib.Machine
import Pion.Proof.Reassembly

/-!
# What a websocket holds

A websocket keeps the fragments of a message as copies, and the final frame behind them
where it is, at the front of the receive buffer. `clear_frames_cache` takes the last frame
out of the receive buffer and forgets the others, so it depends on who calls it: the last
frame must be the one that is still there.

`Kept` says what is held. Every event keeps it, whatever the client sends and whatever the
application does, and `receive` is only ever called with the final frame in front.
-/

namespace Pion.Proof

open Pion Lib Websocket

variable {lib : WebsocketLibrary} {ws ws' : Websocket}

/-! ## Events -/

/-- What the events do, each in the phase it belongs to. -/
inductive Fired (lib : WebsocketLibrary) (ws : Websocket) : Event → Websocket → Prop where
  | start (h : ws.phase = .created) : Fired lib ws .start (ws.start lib)
  | posted (task : Posted) (h : ws.phase = .posted task) : Fired lib ws .posted (ws.runPosted lib task)
  | sent (next : AfterSend) (h : ws.phase = .sending next) :
      Fired lib ws .sent (ws.sendCompletes lib next)
  | sendError (next : AfterSend) (h : ws.phase = .sending next) : Fired lib ws .sendError ws.sendFails
  | read (data : Bytes) (h : ws.phase = .receiving) (hne : data ≠ [])
      (hle : data.length ≤ readBufferSize) : Fired lib ws (.read data) (ws.consume lib data)
  | readError (h : ws.phase = .receiving) : Fired lib ws .readError (ws.onClose .error)
  | write (data : Bytes) (h : ws.phase = .application) : Fired lib ws (.write data) (ws.write data)
  | writeNocopy (data : Bytes) (h : ws.phase = .application) :
      Fired lib ws (.writeNocopy data) (ws.writeNocopy data)
  | send (msgType : FrameType) (h : ws.phase = .application) :
      Fired lib ws (.send msgType) (ws.send lib msgType)
  | sendMessage (msgType : FrameType) (h : ws.phase = .application) :
      Fired lib ws (.sendMessage msgType) (ws.sendMessage lib msgType .handler)
  | receive (h : ws.phase = .application) : Fired lib ws .receive (ws.receive lib)
  | close (h : ws.phase = .application) : Fired lib ws .close (ws.close .normal)
  | drop (h : ws.phase = .application) : Fired lib ws .drop ws.destroy
  | closeSent (h : ws.phase = .closing) : Fired lib ws .closeSent ws.destroy

theorem fire_iff {e : Event} : ws.fire lib e = some ws' ↔ Fired lib ws e ws' := by
  constructor
  · intro h
    unfold fire at h
    split at h
    case h_1 hp => cases h; exact .start hp
    case h_2 task hp => cases h; exact .posted task hp
    case h_3 next hp => cases h; exact .sent next hp
    case h_4 next hp => cases h; exact .sendError next hp
    case h_5 data hp =>
      split at h
      · rename_i hdata
        cases h
        exact .read data hp hdata.1 hdata.2
      · cases h
    case h_6 hp => cases h; exact .readError hp
    case h_7 data hp => cases h; exact .write data hp
    case h_8 data hp => cases h; exact .writeNocopy data hp
    case h_9 msgType hp => cases h; exact .send msgType hp
    case h_10 msgType hp => cases h; exact .sendMessage msgType hp
    case h_11 hp => cases h; exact .receive hp
    case h_12 hp => cases h; exact .close hp
    case h_13 hp => cases h; exact .drop hp
    case h_14 hp => cases h; exact .closeSent hp
    case h_15 => cases h
  · intro h
    unfold fire
    cases h with
    | read data hp hne hle => rw [hp]; exact if_pos ⟨hne, hle⟩
    | _ => simp only [*]

/-! ## Looking at the receive buffer -/

/-- A whole frame, which is the last of its message, is in front of the bytes. -/
structure FinalFront (lib : WebsocketLibrary) (b : Bytes) : Prop where
  wellFormed : (lib.frame b).isWellFormed = true
  complete : (lib.frame b).isComplete = true
  isFinal : (lib.frame b).isFinal = true

/-- A whole ping is in front of the bytes. -/
def pingInFront (lib : WebsocketLibrary) (b : Bytes) : Bool :=
  let frame := lib.frame b
  frame.isWellFormed && frame.isComplete && frame.isFinal && frame.type = .ping

/-- The final frame in front is looked at where it is. -/
def holding (ws : Websocket) : Websocket := { ws with frames := ws.frames ++ [.inBuffer] }

/-! Bytes that are no frame, a fragment beyond the limit, and a frame that is neither a message
nor a ping close the connection. -/

theorem closesOnBuffer_malformed (hwf : (lib.frame ws.receiveBuffer).isWellFormed = false) :
    ws.closesOnBuffer lib = true := by
  unfold closesOnBuffer
  simp [hwf]

theorem closesOnBuffer_fragment (hwf : (lib.frame ws.receiveBuffer).isWellFormed = true)
    (hcomplete : (lib.frame ws.receiveBuffer).isComplete = true)
    (hfinal : (lib.frame ws.receiveBuffer).isFinal = false) :
    ws.closesOnBuffer lib = ws.framesCacheOverflow := by
  unfold closesOnBuffer
  simp [hwf, hcomplete, hfinal]

theorem FinalFront.closesOnBuffer (h : FinalFront lib ws.receiveBuffer)
    (htype : (lib.frame ws.receiveBuffer).type = .close ∨ (lib.frame ws.receiveBuffer).type = .pong ∨
      (lib.frame ws.receiveBuffer).type = .invalid) : ws.closesOnBuffer lib = true := by
  unfold Websocket.closesOnBuffer
  rcases htype with htype | htype | htype <;>
    simp [h.wellFormed, h.complete, h.isFinal, htype]

/-- What `process_receive_buffer` can do. -/
inductive Processed (lib : WebsocketLibrary) (ws : Websocket) : Websocket → Prop where
  | close (hping : pingInFront lib ws.receiveBuffer = false) (status : CloseStatus)
      (hcloses : ws.closesOnBuffer lib = true) : Processed lib ws (ws.onClose status)
  | wait (hping : pingInFront lib ws.receiveBuffer = false) : Processed lib ws ws.receiveInternal
  | fragment (hping : pingInFront lib ws.receiveBuffer = false)
      (hwf : (lib.frame ws.receiveBuffer).isWellFormed = true)
      (hcomplete : (lib.frame ws.receiveBuffer).isComplete = true)
      (hfinal : (lib.frame ws.receiveBuffer).isFinal = false)
      (hroom : ws.frames.length < ws.framesMaxCount) :
      Processed lib ws { ws.addToFramesCache (lib.frame ws.receiveBuffer) with
        phase := .posted .processReceiveBuffer }
  | message (hping : pingInFront lib ws.receiveBuffer = false) (hfront : FinalFront lib ws.receiveBuffer) :
      Processed lib ws ((holding ws).onMessage lib)
  | ping (hping : pingInFront lib ws.receiveBuffer = true) (hfront : FinalFront lib ws.receiveBuffer) :
      Processed lib ws ((holding ws).onPing (lib.frame ws.receiveBuffer))
  | closeFrame (hping : pingInFront lib ws.receiveBuffer = false) (hfront : FinalFront lib ws.receiveBuffer)
      (status : CloseStatus) (hcloses : ws.closesOnBuffer lib = true) :
      Processed lib ws ((holding ws).onClose status)

theorem processReceiveBuffer_processed (lib : WebsocketLibrary) (ws : Websocket) :
    Processed lib ws (ws.processReceiveBuffer lib) := by
  have hping : pingInFront lib ws.receiveBuffer = ((lib.frame ws.receiveBuffer).isWellFormed &&
    (lib.frame ws.receiveBuffer).isComplete && (lib.frame ws.receiveBuffer).isFinal &&
      decide ((lib.frame ws.receiveBuffer).type = .ping)) := rfl
  unfold processReceiveBuffer
  dsimp only
  cases hwf : (lib.frame ws.receiveBuffer).isWellFormed with
  | false =>
    rw [hwf] at hping
    exact .close hping _ (closesOnBuffer_malformed hwf)
  | true =>
    cases hcomplete : (lib.frame ws.receiveBuffer).isComplete with
    | false =>
      rw [hwf, hcomplete] at hping
      exact .wait hping
    | true =>
      cases hfinal : (lib.frame ws.receiveBuffer).isFinal with
      | false =>
        rw [hwf, hcomplete, hfinal] at hping
        show Processed lib ws (ws.onContinuation _)
        unfold onContinuation
        split
        · rename_i hfull
          exact .close hping _ ((closesOnBuffer_fragment hwf hcomplete hfinal).trans hfull)
        · rename_i hroom
          refine .fragment hping hwf hcomplete hfinal ?_
          simpa [framesCacheOverflow] using hroom
      | true =>
        have hfront : FinalFront lib ws.receiveBuffer := ⟨hwf, hcomplete, hfinal⟩
        rw [hwf, hcomplete, hfinal] at hping
        show Processed lib ws (ws.processFinalFrame lib _)
        unfold processFinalFrame
        dsimp only
        split
        all_goals
          rename_i htype
          rw [htype] at hping
        · exact .message hping hfront
        · exact .message hping hfront
        · exact .message hping hfront
        · exact .ping hping hfront
        · exact .closeFrame hping hfront _ (hfront.closesOnBuffer (.inl htype))
        · exact .closeFrame hping hfront _ (hfront.closesOnBuffer (.inr (.inl htype)))
        · exact .closeFrame hping hfront _ (hfront.closesOnBuffer (.inr (.inr htype)))

/-! ## The invariant -/

/-- What a websocket holds: copies of the fragments `kept`, and behind them, if one is `held`,
the final frame at the front of its receive buffer. -/
structure Kept (lib : WebsocketLibrary) (kept : List Bytes) (held : Bool) (ws : Websocket) :
    Prop where
  framesCache : ws.framesCache = kept
  frames : ws.frames = kept.map .cached ++ (if held then [.inBuffer] else [])
  fragments : ∀ f ∈ kept, (lib.frame f).isFinal = false
  count : kept.length ≤ ws.framesMaxCount
  front : held = true → FinalFront lib ws.receiveBuffer
  size : ws.receiveBuffer.length ≤ ws.receiveBufferMaxSize

/-- Who may call `receive` has a final frame, or no frame at all. -/
def HeldBy (ws : Websocket) (kept : List Bytes) (held : Bool) : Prop :=
  match ws.phase with
  | .receiving | .posted .processReceiveBuffer => held = false
  | .created | .application | .posted (.sendInternal _) | .sending _ => held = true ∨ kept = []
  | .closing | .closed => True

def InputState (lib : WebsocketLibrary) (ws : Websocket) : Prop :=
  ∃ kept held, Kept lib kept held ws ∧ HeldBy ws kept held

variable {kept : List Bytes} {held : Bool}

theorem Kept.congr (h : Kept lib kept held ws) {v : Websocket} (hsame : SameInput ws v) :
    Kept lib kept held v where
  framesCache := hsame.framesCache.trans h.framesCache
  frames := hsame.frames.trans h.frames
  fragments := h.fragments
  count := by rw [hsame.framesMaxCount]; exact h.count
  front := fun hh => by rw [hsame.receiveBuffer]; exact h.front hh
  size := by rw [hsame.receiveBuffer, hsame.receiveBufferMaxSize]; exact h.size

/-- After `clear_frames_cache` nothing is held. -/
theorem Kept.clear (h : Kept lib kept held ws) : Kept lib [] false (ws.clearFramesCache lib) := by
  obtain ⟨hmax, hcount⟩ := clearFramesCache_limits lib ws
  refine ⟨rfl, rfl, (fun f hf => by cases hf), Nat.zero_le _, (fun hf => by cases hf), ?_⟩
  rw [hmax, clearFramesCache_receiveBuffer]
  refine Nat.le_trans ?_ h.size
  split
  · rw [List.length_drop]
    omega
  · exact Nat.le_refl _

/-- The final frame in front comes to be held. -/
theorem Kept.hold (h : Kept lib kept false ws) (hfront : FinalFront lib ws.receiveBuffer) :
    Kept lib kept true (holding ws) where
  framesCache := h.framesCache
  frames := by
    show ws.frames ++ [.inBuffer] = _
    rw [h.frames, if_neg Bool.false_ne_true, List.append_nil, if_pos rfl]
  fragments := h.fragments
  count := h.count
  front := fun _ => hfront
  size := h.size

/-- A fragment in front is copied and removed. -/
theorem Kept.fragment (hlib : Lawful lib) (h : Kept lib kept false ws)
    (hwf : (lib.frame ws.receiveBuffer).isWellFormed = true)
    (hcomplete : (lib.frame ws.receiveBuffer).isComplete = true)
    (hfinal : (lib.frame ws.receiveBuffer).isFinal = false)
    (hroom : ws.frames.length < ws.framesMaxCount) :
    Kept lib (kept ++ [ws.receiveBuffer.take (lib.frame ws.receiveBuffer).size]) false
      (ws.addToFramesCache (lib.frame ws.receiveBuffer)) := by
  -- the copy is a frame that says what the whole buffer says
  have hcopy := hlib.first ws.receiveBuffer [] hwf hcomplete
  rw [List.append_nil] at hcopy
  have hlen : ws.frames.length = kept.length := by
    rw [h.frames, if_neg Bool.false_ne_true, List.append_nil, List.length_map]
  refine ⟨?_, ?_, ?_, ?_, (fun hf => by cases hf), ?_⟩
  · show ws.framesCache ++ [_] = _
    rw [h.framesCache]
  · show ws.frames ++ [_] = _
    rw [h.frames, List.map_append, if_neg Bool.false_ne_true, List.append_nil, List.append_nil,
      List.map_singleton]
  · intro f hf
    rcases List.mem_append.mp hf with hf | hf
    · exact h.fragments f hf
    · rw [List.mem_singleton.mp hf, hcopy]
      exact hfinal
  · show _ ≤ ws.framesMaxCount
    rw [List.length_append, List.length_singleton]
    omega
  · show (ws.receiveBuffer.drop _).length ≤ ws.receiveBufferMaxSize
    rw [List.length_drop]
    exact Nat.le_trans (Nat.sub_le _ _) h.size

/-- A ping is answered from the same input. -/
theorem onPing_sameInput (ws : Websocket) (frame : Frame) : SameInput ws (ws.onPing frame) := by
  unfold onPing
  dsimp only
  split
  · exact (write_sameInput ws _).trans ⟨rfl, rfl, rfl, rfl, rfl, rfl⟩
  · exact ⟨rfl, rfl, rfl, rfl, rfl, rfl⟩

/-- Whatever is in front of the receive buffer, the websocket holds what it should. -/
theorem Kept.process (hlib : Lawful lib) (h : Kept lib kept false ws) :
    InputState lib (ws.processReceiveBuffer lib) := by
  have hp := processReceiveBuffer_processed lib ws
  generalize ws.processReceiveBuffer lib = ws' at hp ⊢
  cases hp with
  | close _ status => exact ⟨kept, false, h.congr ⟨rfl, rfl, rfl, rfl, rfl, rfl⟩, trivial⟩
  | wait _ => exact ⟨kept, false, h.congr ⟨rfl, rfl, rfl, rfl, rfl, rfl⟩, rfl⟩
  | fragment _ hwf hcomplete hfinal hroom =>
    exact ⟨_, false, (h.fragment hlib hwf hcomplete hfinal hroom).congr ⟨rfl, rfl, rfl, rfl, rfl, rfl⟩, rfl⟩
  | message _ hfront =>
    have hheld := h.hold hfront
    exact ⟨kept, true, ⟨hheld.framesCache, hheld.frames, hheld.fragments, hheld.count, hheld.front,
      hheld.size⟩, Or.inl rfl⟩
  | ping _ hfront =>
    exact ⟨kept, true, (h.hold hfront).congr (onPing_sameInput _ _), Or.inl rfl⟩
  | closeFrame _ hfront status =>
    exact ⟨kept, true, (h.hold hfront).congr ⟨rfl, rfl, rfl, rfl, rfl, rfl⟩, trivial⟩

/-- `receive` starts with nothing. -/
theorem Kept.receive (hlib : Lawful lib) (h : Kept lib kept held ws) :
    InputState lib (ws.receive lib) :=
  h.clear.process hlib

/-- **Every event keeps what a websocket holds.** -/
theorem InputState.fired (hlib : Lawful lib) (h : InputState lib ws) {e : Event}
    (hf : Fired lib ws e ws') : InputState lib ws' := by
  obtain ⟨kept, held, hkept, hheld⟩ := h
  unfold HeldBy at hheld
  have hsame : ∀ {ws'}, SameInput ws ws' → HeldBy ws' kept held → InputState lib ws' :=
    fun h1 h2 => ⟨kept, held, hkept.congr h1, h2⟩
  cases hf with
  | start hp =>
    rw [hp] at hheld
    exact hsame (start_sameInput lib ws) hheld
  | posted task hp =>
    rw [hp] at hheld
    cases task with
    | processReceiveBuffer =>
      subst hheld
      exact hkept.process hlib
    | sendInternal next => exact hsame ⟨rfl, rfl, rfl, rfl, rfl, rfl⟩ hheld
  | sent next hp =>
    rw [hp] at hheld
    cases next with
    | onOpen => exact hsame ⟨rfl, rfl, rfl, rfl, rfl, rfl⟩ hheld
    | handler => exact hsame ⟨rfl, rfl, rfl, rfl, rfl, rfl⟩ hheld
    | receive => exact (hkept.congr (v := ws.clearPayload) ⟨rfl, rfl, rfl, rfl, rfl, rfl⟩).receive hlib
  | sendError next hp => exact hsame ⟨rfl, rfl, rfl, rfl, rfl, rfl⟩ trivial
  | read data hp hne hle =>
    rw [hp] at hheld
    subst hheld
    show InputState lib (ws.consume lib data)
    unfold consume
    split
    · exact hsame ⟨rfl, rfl, rfl, rfl, rfl, rfl⟩ trivial
    · rename_i hroom
      refine Kept.process hlib ⟨hkept.framesCache, hkept.frames, hkept.fragments, hkept.count,
        (fun hf => by cases hf), ?_⟩
      show (ws.receiveBuffer ++ data).length ≤ ws.receiveBufferMaxSize
      rw [List.length_append]
      simpa [receiveBufferOverflow] using hroom
  | readError hp => exact hsame ⟨rfl, rfl, rfl, rfl, rfl, rfl⟩ trivial
  | write data hp =>
    refine hsame (write_sameInput ws data) ?_
    unfold HeldBy
    rw [write_phase, hp]
    rwa [hp] at hheld
  | writeNocopy data hp =>
    refine hsame (write_sameInput ws data) ?_
    unfold HeldBy writeNocopy
    rw [write_phase, hp]
    rwa [hp] at hheld
  | send msgType hp =>
    rw [hp] at hheld
    exact hsame ⟨rfl, rfl, rfl, rfl, rfl, rfl⟩ hheld
  | sendMessage msgType hp =>
    rw [hp] at hheld
    exact hsame ⟨rfl, rfl, rfl, rfl, rfl, rfl⟩ hheld
  | receive hp => exact hkept.receive hlib
  | close hp => exact hsame ⟨rfl, rfl, rfl, rfl, rfl, rfl⟩ trivial
  | drop hp => exact hsame ⟨rfl, rfl, rfl, rfl, rfl, rfl⟩ trivial
  | closeSent hp => exact hsame ⟨rfl, rfl, rfl, rfl, rfl, rfl⟩ trivial

/-! ## Runs -/

theorem new_inputState (lib : WebsocketLibrary) (req : HttpRequest) (maxSize maxCount : Nat) :
    InputState lib (.new req maxSize maxCount) :=
  ⟨[], false, ⟨rfl, rfl, (fun f hf => by cases hf), Nat.zero_le _, (fun hf => by cases hf), Nat.zero_le _⟩,
    Or.inr rfl⟩

theorem run_inputState (hlib : Lawful lib) {req : HttpRequest} {maxSize maxCount : Nat}
    {es : List Event}
    (h : exec (fire lib) (.new req maxSize maxCount) es = some ws) : InputState lib ws :=
  exec_invariant (fun _ => InputState lib) (new_inputState lib req maxSize maxCount)
    (fun _ _ _ _ _ hinv hf => hinv.fired hlib (fire_iff.mp hf)) h

/-- The first frame of some bytes, and the rest of them. -/
theorem FinalFront.split (hlib : Lawful lib) {b : Bytes} (h : FinalFront lib b) :
    ∃ f rest, IsFrame lib f ∧ b = f ++ rest ∧ lib.frame b = lib.frame f ∧
      b.drop (lib.frame b).size = rest := by
  have hle := hlib.size_le b h.wellFormed h.complete
  have hfirst := hlib.first b [] h.wellFormed h.complete
  rw [List.append_nil] at hfirst
  refine ⟨b.take (lib.frame b).size, b.drop (lib.frame b).size, ⟨?_, ?_, ?_⟩,
    (List.take_append_drop _ _).symm, hfirst.symm, rfl⟩
  · rw [hfirst]
    exact h.wellFormed
  · rw [hfirst]
    exact h.complete
  · rw [hfirst, List.length_take, Nat.min_eq_left hle]

/-- The frames that are not final are the ones in the cache. -/
theorem Kept.cached (h : Kept lib kept held ws) :
    ws.framesCache.map .cached = ws.frames.filter fun v => !(ws.frameOf lib v).isFinal := by
  have hcopies : (kept.map FrameView.cached).filter (fun v => !(ws.frameOf lib v).isFinal) =
      kept.map .cached := by
    refine List.filter_eq_self.mpr ?_
    intro v hv
    obtain ⟨f, hf, rfl⟩ := List.mem_map.mp hv
    show (!(lib.frame f).isFinal) = true
    rw [h.fragments f hf]
    rfl
  rw [h.framesCache, h.frames, List.filter_append, hcopies]
  cases held with
  | false => exact (List.append_nil _).symm
  | true =>
    rw [if_pos rfl, List.filter_cons_of_neg, List.filter_nil, List.append_nil]
    show ¬ (!(lib.frame ws.receiveBuffer).isFinal) = true
    rw [(h.front rfl).isFinal]
    decide

/-- The states in which `receive` may be called, by the application or when a write completes. -/
def MayReceive (ws : Websocket) : Prop := ws.phase = .application ∨ ws.phase = .sending .receive

/-- **The input of a websocket stays within its limits and in order**, in every run. The cache
has the copies of the frames that are not final; and when `receive` is called with frames, the
last of them is the one that the receive buffer begins with, so just that one is removed. -/
theorem input_bounded (hlib : Lawful lib) (req : HttpRequest) (maxSize maxCount : Nat)
    (es : List Event)
    (ws : Websocket) (h : exec (fire lib) (.new req maxSize maxCount) es = some ws) :
    ws.receiveBuffer.length ≤ ws.receiveBufferMaxSize ∧
      ws.frames.length ≤ ws.framesMaxCount + 1 ∧
      ws.framesCache.map .cached = ws.frames.filter (fun v => !(ws.frameOf lib v).isFinal) ∧
      (MayReceive ws → ws.frames ≠ [] → ws.frames.getLast? = some .inBuffer ∧
        ∃ f rest, IsFrame lib f ∧ ws.receiveBuffer = f ++ rest ∧
          ws.frameOf lib .inBuffer = lib.frame f ∧
          (ws.clearFramesCache lib).receiveBuffer = rest) := by
  obtain ⟨kept, held, hkept, hheld⟩ := run_inputState hlib h
  refine ⟨hkept.size, ?_, hkept.cached, ?_⟩
  · have hcount := hkept.count
    rw [hkept.frames, List.length_append, List.length_map]
    cases held with
    | false => exact Nat.le_succ_of_le hcount
    | true => exact Nat.succ_le_succ hcount
  · intro hreceive hne
    have hframes := hkept.frames
    have htrue : held = true := by
      have hor : held = true ∨ kept = [] := by
        unfold HeldBy at hheld
        rcases hreceive with hp | hp <;> rwa [hp] at hheld
      rcases hor with hh | rfl
      · exact hh
      · cases held with
        | false => exact absurd hframes hne
        | true => rfl
    rw [htrue, if_pos rfl] at hframes
    have hlast : ws.frames.getLast? = some .inBuffer := by
      rw [hframes, List.getLast?_concat]
    obtain ⟨f, rest, hf, hsplit, hframe, hdrop⟩ := (hkept.front htrue).split hlib
    refine ⟨hlast, f, rest, hf, hsplit, hframe, ?_⟩
    rw [clearFramesCache_receiveBuffer, hlast]
    exact hdrop

/-- Two frames of one message come in one read, with the beginning of the next message. -/
def heldEvents : List Event :=
  [.start, .sent, .receive,
    .read (maskedFrame 0x01 (str "he") ++ maskedFrame 0x80 (str "llo") ++ (maskedFrame 0x81 (str "x")).take 3),
    .posted]

theorem input_bounded_held :
    ∃ ws, exec (fire shortFrames) (.new handshakeRequest defaultReceiveBufferMaxSize defaultFramesMaxCount)
        heldEvents = some ws ∧
      ws.frames.length = 2 ∧ ws.framesCache = [maskedFrame 0x01 (str "he")] ∧
      ∃ f rest, IsFrame shortFrames f ∧ ws.receiveBuffer = f ++ rest ∧
        (ws.clearFramesCache shortFrames).receiveBuffer = rest := by
  have hsome : ((exec (fire shortFrames)
      (.new handshakeRequest defaultReceiveBufferMaxSize defaultFramesMaxCount) heldEvents).map
        fun ws => (ws.phase, ws.framesCache, ws.frames)) =
      some (.application, [maskedFrame 0x01 (str "he")],
        [.cached (maskedFrame 0x01 (str "he")), .inBuffer]) := by
    decide +kernel
  obtain ⟨ws, hws, hfields⟩ := Option.map_eq_some_iff.mp hsome
  obtain ⟨hphase, hcache, hframes⟩ : ws.phase = _ ∧ ws.framesCache = _ ∧ ws.frames = _ := by
    simpa using hfields
  obtain ⟨_, _, _, hreceive⟩ := input_bounded shortFrames_lawful _ _ _ _ ws hws
  obtain ⟨_, f, rest, hf, hsplit, _, hrest⟩ := hreceive (Or.inl hphase) (by rw [hframes]; simp)
  exact ⟨ws, hws, by rw [hframes]; rfl, hcache, f, rest, hf, hsplit, hrest⟩

end Pion.Proof
