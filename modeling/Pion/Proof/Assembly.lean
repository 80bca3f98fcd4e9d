import Mathlib.Tactic.MkIffOfInductiveProp
import Pion.Lib.Delivery
import Pion.Websocket

/-!
# What a websocket makes of frames

A client cuts its messages into frames and TCP cuts the frames into reads; `on_message` is
called with the messages. What the frames come to is said by `assembled`, which knows
nothing of buffers: a frame that is not final is kept for later, a final one makes a
message of itself and of what was kept.

The websocket follows that through any reads. It is between two frames, with the kept
frames in its cache and the rest of what it was sent in the receive buffer; or it holds a
final frame, which stays at the front of the receive buffer for as long as somebody may
look at it, and which is gone after `clear_frames_cache`. So the invariant of the second
state is that of the first, about what `clear_frames_cache` makes of it.
-/

namespace Pion.Proof

open Pion Lib

/-! ## Frames -/

/-- What the websocket relies on in `sl::websocket::frame`: all that it says depends on
the first frame of its bytes only, it is complete when these hold that frame, and fewer
bytes are no error. -/
structure Lawful (lib : WebsocketLibrary) : Prop where
  empty : (lib.frame []).isWellFormed = true ∧ (lib.frame []).isComplete = false
  size_le : ∀ b, (lib.frame b).isWellFormed = true → (lib.frame b).isComplete = true →
    (lib.frame b).size ≤ b.length
  first : ∀ b rest, (lib.frame b).isWellFormed = true → (lib.frame b).isComplete = true →
    lib.frame (b.take (lib.frame b).size ++ rest) = lib.frame b
  short : ∀ b n, (lib.frame b).isWellFormed = true → (lib.frame b).isComplete = true →
    n < (lib.frame b).size →
    (lib.frame (b.take n)).isWellFormed = true ∧ (lib.frame (b.take n)).isComplete = false

/-- The bytes of one frame. -/
@[mk_iff]
structure IsFrame (lib : WebsocketLibrary) (f : Bytes) : Prop where
  wellFormed : (lib.frame f).isWellFormed = true
  complete : (lib.frame f).isComplete = true
  size : (lib.frame f).size = f.length

variable {lib : WebsocketLibrary}

instance (f : Bytes) : Decidable (IsFrame lib f) := decidable_of_iff' _ (isFrame_iff lib f)

theorem IsFrame.append {f : Bytes} (h : IsFrame lib f) (hlib : Lawful lib) (rest : Bytes) :
    lib.frame (f ++ rest) = lib.frame f := by
  have hfirst := hlib.first f rest h.wellFormed h.complete
  rwa [h.size, List.take_length] at hfirst

theorem IsFrame.take {f : Bytes} (h : IsFrame lib f) (hlib : Lawful lib) {n : Nat} (hn : n < f.length) :
    (lib.frame (f.take n)).isWellFormed = true ∧ (lib.frame (f.take n)).isComplete = false :=
  hlib.short f n h.wellFormed h.complete (by rw [h.size]; exact hn)

/-- A receive buffer that holds the beginning of some frames holds the first of them, or
waits for it. -/
theorem front_of_frames (hlib : Lawful lib) {buf : Bytes} {todo : List Bytes}
    (hframes : ∀ f ∈ todo, IsFrame lib f) (hbuf : buf <+: todo.flatten) :
    ((lib.frame buf).isWellFormed = true ∧ (lib.frame buf).isComplete = false ∧
      ∀ f todo', todo = f :: todo' → buf.length < f.length) ∨
    ∃ f todo' rest, todo = f :: todo' ∧ buf = f ++ rest := by
  cases todo with
  | nil =>
    obtain rfl := List.prefix_nil.mp hbuf
    exact Or.inl ⟨hlib.empty.1, hlib.empty.2, fun f todo' he => by cases he⟩
  | cons f todo' =>
    rw [List.flatten_cons] at hbuf
    have hf := hframes f List.mem_cons_self
    rcases Nat.lt_or_ge buf.length f.length with hlt | hge
    · -- the buffer ends inside the frame
      have htake : buf = f.take buf.length :=
        List.prefix_iff_eq_take.mp (List.prefix_of_prefix_length_le hbuf (List.prefix_append _ _)
          (Nat.le_of_lt hlt))
      obtain ⟨hwf, hinc⟩ := hf.take hlib hlt
      rw [← htake] at hwf hinc
      refine Or.inl ⟨hwf, hinc, fun g todo'' he => ?_⟩
      obtain ⟨rfl, rfl⟩ := List.cons.inj he
      exact hlt
    · obtain ⟨rest, hrest⟩ := List.prefix_of_prefix_length_le (List.prefix_append f _) hbuf hge
      exact Or.inr ⟨f, todo', rest, rfl, hrest.symm⟩

/-! ## What frames come to -/

/-- The message that some frames make. -/
def messageOf (lib : WebsocketLibrary) (fs : List Bytes) : WsMessage where
  type := match fs with
    | [] => .invalid
    | f :: _ => (lib.frame f).type
  data := (fs.map fun f => (lib.frame f).payloadUnmasked).flatten

/-- What the frames so far have come to. -/
structure Assembly where
  kept : List Bytes := []
  messages : List WsMessage := []

/-- One more frame. A ping makes no message, but what was kept is kept no longer. -/
def Assembly.add (lib : WebsocketLibrary) (a : Assembly) (f : Bytes) : Assembly :=
  if (lib.frame f).isFinal = false then { a with kept := a.kept ++ [f] }
  else if (lib.frame f).type = .ping then { a with kept := [] }
  else { kept := [], messages := a.messages ++ [messageOf lib (a.kept ++ [f])] }

def assembled (lib : WebsocketLibrary) (fs : List Bytes) : Assembly := fs.foldl (Assembly.add lib) {}

theorem assembled_append (lib : WebsocketLibrary) (fs gs : List Bytes) :
    assembled lib (fs ++ gs) = gs.foldl (Assembly.add lib) (assembled lib fs) := by
  unfold assembled
  rw [List.foldl_append]

theorem assembled_snoc (lib : WebsocketLibrary) (fs : List Bytes) (f : Bytes) :
    assembled lib (fs ++ [f]) = (assembled lib fs).add lib f := assembled_append lib fs [f]

theorem add_fragment {a : Assembly} {f : Bytes} (h : (lib.frame f).isFinal = false) :
    a.add lib f = { a with kept := a.kept ++ [f] } := by
  unfold Assembly.add
  rw [if_pos h]

theorem add_ping {a : Assembly} {f : Bytes} (h : (lib.frame f).isFinal = true)
    (hping : (lib.frame f).type = .ping) : a.add lib f = { a with kept := [] } := by
  unfold Assembly.add
  rw [if_neg (by rw [h]; decide), if_pos hping]

theorem add_final {a : Assembly} {f : Bytes} (h : (lib.frame f).isFinal = true)
    (hping : (lib.frame f).type ≠ .ping) :
    a.add lib f = { kept := [], messages := a.messages ++ [messageOf lib (a.kept ++ [f])] } := by
  unfold Assembly.add
  rw [if_neg (by rw [h]; decide), if_neg hping]

/-- A frame that the websocket can take: its read buffer has room for it and for a read that
begins inside of it, and a final frame is data or a ping. -/
structure Admissible (lib : WebsocketLibrary) (maxSize : Nat) (f : Bytes) : Prop where
  isFrame : IsFrame lib f
  fits : f.length + readBufferSize ≤ maxSize
  type : (lib.frame f).isFinal = true → (lib.frame f).type = .text ∨ (lib.frame f).type = .binary ∨
    (lib.frame f).type = .continuation ∨ (lib.frame f).type = .ping

/-- Frames that the websocket can take one after another: no more of them are kept at a
time than it allows. -/
structure Transmittable (lib : WebsocketLibrary) (maxSize maxCount : Nat) (fs : List Bytes) : Prop where
  admissible : ∀ f ∈ fs, Admissible lib maxSize f
  count : ∀ front f back, fs = front ++ f :: back → (lib.frame f).isFinal = false →
    (assembled lib front).kept.length < maxCount

theorem Transmittable.isFrame {maxSize maxCount : Nat} {fs gs : List Bytes}
    (h : Transmittable lib maxSize maxCount (fs ++ gs)) : ∀ f ∈ gs, IsFrame lib f :=
  fun f hf => (h.admissible f (List.mem_append_right fs hf)).isFrame

/-! ## What a step leaves alone -/

/-- Two states of a websocket with the same input. -/
structure SameInput (ws ws' : Websocket) : Prop where
  receiveBuffer : ws'.receiveBuffer = ws.receiveBuffer
  framesCache : ws'.framesCache = ws.framesCache
  frames : ws'.frames = ws.frames
  messages : ws'.messages = ws.messages
  receiveBufferMaxSize : ws'.receiveBufferMaxSize = ws.receiveBufferMaxSize
  framesMaxCount : ws'.framesMaxCount = ws.framesMaxCount

theorem SameInput.refl (ws : Websocket) : SameInput ws ws := ⟨rfl, rfl, rfl, rfl, rfl, rfl⟩

theorem SameInput.trans {a b c : Websocket} (h : SameInput a b) (h' : SameInput b c) : SameInput a c :=
  ⟨h'.receiveBuffer.trans h.receiveBuffer, h'.framesCache.trans h.framesCache, h'.frames.trans h.frames,
    h'.messages.trans h.messages, h'.receiveBufferMaxSize.trans h.receiveBufferMaxSize,
    h'.framesMaxCount.trans h.framesMaxCount⟩

theorem write_sameInput (ws : Websocket) (data : Bytes) : SameInput ws (ws.write data) := by
  unfold Websocket.write
  split
  · exact ⟨rfl, rfl, rfl, rfl, rfl, rfl⟩
  · exact SameInput.refl ws

theorem write_phase (ws : Websocket) (data : Bytes) : (ws.write data).phase = ws.phase := by
  unfold Websocket.write
  split <;> rfl

theorem prepareHandshake_sameInput (ws : Websocket) : SameInput ws (ws.prepareHandshake lib) := by
  unfold Websocket.prepareHandshake
  dsimp only
  refine SameInput.trans ?_ (write_sameInput _ _)
  generalize lib.makeResponseHeaders (ws.request.getHeader (str "Sec-WebSocket-Key")) = headers
  -- each header is four writes behind the others
  induction headers using List.reverseRecOn with
  | nil => exact write_sameInput ws _
  | append_singleton headers ha ih =>
    rw [List.foldl_append, List.foldl_cons, List.foldl_nil]
    unfold Websocket.writeNocopy at ih ⊢
    exact (((ih.trans (write_sameInput _ _)).trans (write_sameInput _ _)).trans
      (write_sameInput _ _)).trans (write_sameInput _ _)

theorem start_sameInput (lib : WebsocketLibrary) (ws : Websocket) : SameInput ws (ws.start lib) :=
  (prepareHandshake_sameInput ws).trans ⟨rfl, rfl, rfl, rfl, rfl, rfl⟩

/-! ## The invariant -/

/-- The frames `done` have been taken, and nothing else of what was received. -/
structure Between (lib : WebsocketLibrary) (done : List Bytes) (got : Bytes) (ws : Websocket) : Prop where
  frames : ws.frames = (assembled lib done).kept.map .cached
  messages : ws.messages = (assembled lib done).messages
  got : got = done.flatten ++ ws.receiveBuffer

/-- What a websocket is like when the frames `done` have been taken. -/
def Consistent (lib : WebsocketLibrary) (done : List Bytes) (got : Bytes) (ws : Websocket) : Prop :=
  match ws.phase with
  | .receiving => Between lib done got ws ∧ (lib.frame ws.receiveBuffer).isComplete = false
  | .posted .processReceiveBuffer => Between lib done got ws
  | .application | .posted (.sendInternal _) | .sending _ => Between lib done got (ws.clearFramesCache lib)
  | .created | .closing | .closed => False

structure Follows (lib : WebsocketLibrary) (maxSize maxCount : Nat) (got : Bytes) (done : List Bytes)
    (ws : Websocket) : Prop where
  maxSize : ws.receiveBufferMaxSize = maxSize
  maxCount : ws.framesMaxCount = maxCount
  consistent : Consistent lib done got ws

variable {maxSize maxCount : Nat} {done todo : List Bytes} {got : Bytes} {ws ws' : Websocket}

/-- The states in which somebody may look at the frames. -/
def Holds (ws : Websocket) : Prop :=
  ws.phase = .application ∨ (∃ next, ws.phase = .posted (.sendInternal next)) ∨
    ∃ next, ws.phase = .sending next

theorem consistent_holds (h : Holds ws) :
    Consistent lib done got ws ↔ Between lib done got (ws.clearFramesCache lib) := by
  unfold Consistent
  rcases h with h | ⟨next, h⟩ | ⟨next, h⟩ <;> rw [h]

theorem clearFramesCache_receiveBuffer (lib : WebsocketLibrary) (ws : Websocket) :
    (ws.clearFramesCache lib).receiveBuffer = match ws.frames.getLast? with
      | some v => ws.receiveBuffer.drop (ws.frameOf lib v).size
      | none => ws.receiveBuffer := by
  unfold Websocket.clearFramesCache
  cases ws.frames.getLast? <;> rfl

theorem clearFramesCache_messages (lib : WebsocketLibrary) (ws : Websocket) :
    (ws.clearFramesCache lib).messages = ws.messages := by
  unfold Websocket.clearFramesCache
  cases ws.frames.getLast? <;> rfl

theorem clearFramesCache_limits (lib : WebsocketLibrary) (ws : Websocket) :
    (ws.clearFramesCache lib).receiveBufferMaxSize = ws.receiveBufferMaxSize ∧
      (ws.clearFramesCache lib).framesMaxCount = ws.framesMaxCount := by
  unfold Websocket.clearFramesCache
  cases ws.frames.getLast? <;> exact ⟨rfl, rfl⟩

theorem between_clear_congr (hsame : SameInput ws ws') (h : Between lib done got (ws.clearFramesCache lib)) :
    Between lib done got (ws'.clearFramesCache lib) := by
  have hview : ∀ v, ws'.frameOf lib v = ws.frameOf lib v := by
    intro v
    unfold Websocket.frameOf
    cases v with
    | cached bytes => rfl
    | inBuffer => exact congrArg lib.frame hsame.receiveBuffer
  refine ⟨h.frames, ?_, ?_⟩
  · rw [clearFramesCache_messages, hsame.messages, ← clearFramesCache_messages lib]
    exact h.messages
  · rw [clearFramesCache_receiveBuffer, hsame.frames, hsame.receiveBuffer]
    simp only [hview]
    rw [← clearFramesCache_receiveBuffer]
    exact h.got

/-- A step that leaves the input alone, from one who may look at the frames to another. -/
theorem Follows.hold (h : Follows lib maxSize maxCount got done ws) (hsame : SameInput ws ws')
    (hold : Holds ws) (hold' : Holds ws') : Follows lib maxSize maxCount got done ws' where
  maxSize := hsame.receiveBufferMaxSize.trans h.maxSize
  maxCount := hsame.framesMaxCount.trans h.maxCount
  consistent := (consistent_holds hold').mpr
    (between_clear_congr hsame ((consistent_holds hold).mp h.consistent))

/-! ## Taking one frame -/

theorem messageData_eq (ws : Websocket) :
    ws.messageData lib = (ws.frames.map fun v => (ws.frameOf lib v).payloadUnmasked).flatten := by
  unfold Websocket.messageData
  split
  · next hnil => rw [hnil]; rfl
  · next v hone => rw [hone, List.map_singleton, List.flatten_singleton]
  · rfl

section one

variable {f rest : Bytes}

/-- The application sees the kept frames and the one at the front of the receive buffer. -/
theorem message_held (hlib : Lawful lib) (hf : IsFrame lib f) {kept : List Bytes}
    (hframes : ws.frames = kept.map .cached ++ [.inBuffer]) (hbuf : ws.receiveBuffer = f ++ rest) :
    { type := ws.messageType lib, data := ws.messageData lib : WsMessage } = messageOf lib (kept ++ [f]) := by
  have hlast : ws.frameOf lib .inBuffer = lib.frame f := by
    unfold Websocket.frameOf Websocket.viewBytes
    rw [hbuf, hf.append hlib]
  unfold messageOf
  congr 1
  · unfold Websocket.messageType
    rw [hframes]
    cases kept with
    | nil => exact congrArg Frame.type hlast
    | cons g kept => rfl
  · rw [messageData_eq, hframes, List.map_append, List.map_append, List.map_map, List.map_singleton,
      List.map_singleton, hlast]
    rfl

/-- A fragment is copied to the cache and leaves the receive buffer. -/
theorem between_fragment (hf : IsFrame lib f) (hfinal : (lib.frame f).isFinal = false)
    (h : Between lib done got ws) (hbuf : ws.receiveBuffer = f ++ rest) :
    Between lib (done ++ [f]) got (ws.addToFramesCache (lib.frame f)) := by
  have htake : ws.receiveBuffer.take (lib.frame f).size = f := by
    rw [hbuf, hf.size, List.take_left]
  have hdrop : ws.receiveBuffer.drop (lib.frame f).size = rest := by
    rw [hbuf, hf.size, List.drop_left]
  unfold Websocket.addToFramesCache
  dsimp only
  rw [htake]
  refine ⟨?_, ?_, ?_⟩
  · rw [assembled_snoc, add_fragment hfinal, List.map_append, ← h.frames]
    rfl
  · rw [assembled_snoc, add_fragment hfinal]
    exact h.messages
  · show got = (done ++ [f]).flatten ++ ws.receiveBuffer.drop (lib.frame f).size
    rw [hdrop, h.got, hbuf, List.flatten_append, List.flatten_singleton, List.append_assoc]

/-- A final frame leaves the receive buffer when the frames are cleared. -/
theorem between_release (hlib : Lawful lib) (hf : IsFrame lib f) {kept : List Bytes}
    (hframes : ws.frames = kept.map .cached ++ [.inBuffer]) (hbuf : ws.receiveBuffer = f ++ rest)
    (hkept : (assembled lib (done ++ [f])).kept = [])
    (hmessages : ws.messages = (assembled lib (done ++ [f])).messages)
    (hgot : got = done.flatten ++ ws.receiveBuffer) :
    Between lib (done ++ [f]) got (ws.clearFramesCache lib) := by
  refine ⟨?_, ?_, ?_⟩
  · rw [hkept]
    rfl
  · rw [clearFramesCache_messages]
    exact hmessages
  · have hview : ws.frameOf lib .inBuffer = lib.frame f := by
      unfold Websocket.frameOf Websocket.viewBytes
      rw [hbuf, hf.append hlib]
    rw [clearFramesCache_receiveBuffer, hframes, List.getLast?_concat]
    dsimp only
    rw [hview, hgot, hbuf, hf.size, List.drop_left, List.flatten_append, List.flatten_singleton,
      List.append_assoc]

/-- **A data frame that is final** goes to the application. -/
theorem follows_message (hlib : Lawful lib) (hf : IsFrame lib f) (hfinal : (lib.frame f).isFinal = true)
    (hping : (lib.frame f).type ≠ .ping) (hsize : ws.receiveBufferMaxSize = maxSize)
    (hcount : ws.framesMaxCount = maxCount) (h : Between lib done got ws)
    (hbuf : ws.receiveBuffer = f ++ rest) :
    Follows lib maxSize maxCount got (done ++ [f])
      (Websocket.onMessage lib { ws with frames := ws.frames ++ [.inBuffer] }) := by
  let held : Websocket := { ws with frames := ws.frames ++ [.inBuffer] }
  have hadd := assembled_snoc lib done f
  rw [add_final hfinal hping] at hadd
  have hframes : held.frames = (assembled lib done).kept.map .cached ++ [.inBuffer] :=
    congrArg (· ++ [.inBuffer]) h.frames
  refine ⟨hsize, hcount, (consistent_holds (Or.inl rfl)).mpr ?_⟩
  refine between_release hlib hf hframes hbuf (by rw [hadd]) ?_ h.got
  rw [hadd]
  show held.messages ++ [_] = _
  rw [message_held hlib hf hframes hbuf]
  exact congrArg (· ++ [_]) h.messages

/-- **A ping** is answered, and what was kept is lost. -/
theorem follows_ping (hlib : Lawful lib) (hf : IsFrame lib f) (hfinal : (lib.frame f).isFinal = true)
    (hping : (lib.frame f).type = .ping) (hsize : ws.receiveBufferMaxSize = maxSize)
    (hcount : ws.framesMaxCount = maxCount) (h : Between lib done got ws)
    (hbuf : ws.receiveBuffer = f ++ rest) (frame : Frame) :
    Follows lib maxSize maxCount got (done ++ [f])
      (Websocket.onPing { ws with frames := ws.frames ++ [.inBuffer] } frame) := by
  let held : Websocket := { ws with frames := ws.frames ++ [.inBuffer] }
  have hsame : SameInput held (held.onPing frame) := by
    unfold Websocket.onPing
    dsimp only
    split
    · exact (write_sameInput held _).trans ⟨rfl, rfl, rfl, rfl, rfl, rfl⟩
    · exact ⟨rfl, rfl, rfl, rfl, rfl, rfl⟩
  -- a ping counts as a frame that leaves nothing kept
  have hadd := assembled_snoc lib done f
  rw [add_ping hfinal hping] at hadd
  have hframes : held.frames = (assembled lib done).kept.map .cached ++ [.inBuffer] :=
    congrArg (· ++ [.inBuffer]) h.frames
  have hclear : Between lib (done ++ [f]) got (held.clearFramesCache lib) := by
    refine between_release hlib hf hframes hbuf (by rw [hadd]) ?_ h.got
    rw [hadd]
    exact h.messages
  refine ⟨hsame.receiveBufferMaxSize.trans hsize, hsame.framesMaxCount.trans hcount, ?_⟩
  exact (consistent_holds (Or.inr (Or.inr ⟨.receive, rfl⟩))).mpr (between_clear_congr hsame hclear)

end one

/-- The websocket waits for more bytes, or it has taken one more frame. -/
abbrev Proceeds (lib : WebsocketLibrary) (maxSize maxCount : Nat) (got : Bytes) :
    List Bytes → List Bytes → Websocket → Prop :=
  Advanced (Follows lib maxSize maxCount got) (·.phase = .receiving)

/-- **`process_receive_buffer` takes the next frame as soon as it is there.** -/
theorem process_proceeds (hlib : Lawful lib) (hs : Transmittable lib maxSize maxCount (done ++ todo))
    (hgot : got <+: (done ++ todo).flatten) (hsize : ws.receiveBufferMaxSize = maxSize)
    (hcount : ws.framesMaxCount = maxCount) (h : Between lib done got ws) :
    Proceeds lib maxSize maxCount got done todo (ws.processReceiveBuffer lib) := by
  have hbuf : ws.receiveBuffer <+: todo.flatten := by
    rw [h.got, List.flatten_append] at hgot
    exact (List.prefix_append_right_inj _).mp hgot
  rcases front_of_frames hlib hs.isFrame hbuf with ⟨hwf, hinc, _⟩ | ⟨f, todo', rest, rfl, hfront⟩
  -- the buffer ends inside a frame: back to the socket
  · have hrecv : ws.processReceiveBuffer lib = ws.receiveInternal := by
      unfold Websocket.processReceiveBuffer
      simp only [hwf, hinc, Bool.not_true, Bool.not_false, Bool.false_eq_true, if_true, if_false]
    rw [hrecv]
    exact Or.inl ⟨⟨hsize, hcount, ⟨h.frames, h.messages, h.got⟩, hinc⟩, rfl⟩
  -- a whole frame is in front: which callback it gets depends on its final bit and type
  · refine Or.inr ⟨f, todo', rfl, ?_⟩
    have hadm := hs.admissible f (List.mem_append_right _ List.mem_cons_self)
    have hf := hadm.isFrame
    have hframe : lib.frame ws.receiveBuffer = lib.frame f := by rw [hfront, hf.append hlib]
    unfold Websocket.processReceiveBuffer
    simp only [hframe, hf.wellFormed, hf.complete, Bool.not_true, Bool.false_eq_true, if_false]
    cases hfinal : (lib.frame f).isFinal with
    | false =>
      -- the count limit is checked before the fragment is cached
      have hroom : ws.framesCacheOverflow = false := by
        unfold Websocket.framesCacheOverflow
        rw [h.frames, List.length_map, hcount, decide_eq_false_iff_not]
        exact Nat.not_le.mpr (hs.count done f todo' rfl hfinal)
      unfold Websocket.onContinuation
      simp only [hroom, Bool.not_false, Bool.false_eq_true, if_true, if_false]
      have hkept := between_fragment hf hfinal h hfront
      exact ⟨hsize, hcount, hkept.frames, hkept.messages, hkept.got⟩
    | true =>
      simp only [Bool.not_true, Bool.false_eq_true, if_false]
      unfold Websocket.processFinalFrame
      dsimp only
      rcases hadm.type hfinal with ht | ht | ht | ht <;> rw [ht]
      · exact follows_message hlib hf hfinal (by rw [ht]; decide) hsize hcount h hfront
      · exact follows_message hlib hf hfinal (by rw [ht]; decide) hsize hcount h hfront
      · exact follows_message hlib hf hfinal (by rw [ht]; decide) hsize hcount h hfront
      · exact follows_ping hlib hf hfinal ht hsize hcount h hfront _

/-! ## Steps -/

/-- `receive`, from one who may look at the frames. -/
theorem receive_proceeds (hlib : Lawful lib) (hs : Transmittable lib maxSize maxCount (done ++ todo))
    (hgot : got <+: (done ++ todo).flatten) (h : Follows lib maxSize maxCount got done ws)
    (hold : Holds ws) (hsame : SameInput ws ws') :
    Proceeds lib maxSize maxCount got done todo (ws'.receive lib) := by
  have hclear := between_clear_congr hsame ((consistent_holds hold).mp h.consistent)
  obtain ⟨hsize, hcount⟩ := clearFramesCache_limits lib ws'
  exact process_proceeds hlib hs hgot
    (hsize.trans (hsame.receiveBufferMaxSize.trans h.maxSize))
    (hcount.trans (hsame.framesMaxCount.trans h.maxCount)) hclear

/-- A step of a working websocket leaves the input alone, or lets go of the frames and takes
the next one if it is there. -/
theorem works_follows (hlib : Lawful lib) (hs : Transmittable lib maxSize maxCount (done ++ todo))
    (hgot : got <+: (done ++ todo).flatten) (h : Follows lib maxSize maxCount got done ws)
    (hw : Websocket.Works lib ws ws') :
    Along (Follows lib maxSize maxCount got) (done ++ todo) ws' := by
  cases hw with
  | posted task hphase =>
    cases task with
    | processReceiveBuffer =>
      have hb : Between lib done got ws := by
        have hc := h.consistent
        unfold Consistent at hc
        rwa [hphase] at hc
      exact (process_proceeds hlib hs hgot h.maxSize h.maxCount hb).along
    | sendInternal next =>
      exact ⟨done, todo, rfl, h.hold ⟨rfl, rfl, rfl, rfl, rfl, rfl⟩ (Or.inr (Or.inl ⟨next, hphase⟩))
        (Or.inr (Or.inr ⟨next, rfl⟩))⟩
  | sent next hphase =>
    have hold : Holds ws := Or.inr (Or.inr ⟨next, hphase⟩)
    cases next with
    | onOpen => exact ⟨done, todo, rfl, h.hold ⟨rfl, rfl, rfl, rfl, rfl, rfl⟩ hold (Or.inl rfl)⟩
    | receive =>
      have hsame : SameInput ws ws.clearPayload := ⟨rfl, rfl, rfl, rfl, rfl, rfl⟩
      exact (receive_proceeds hlib hs hgot h hold hsame).along
    | handler => exact ⟨done, todo, rfl, h.hold ⟨rfl, rfl, rfl, rfl, rfl, rfl⟩ hold (Or.inl rfl)⟩
  | write data hphase =>
    exact ⟨done, todo, rfl, h.hold (write_sameInput ws data) (Or.inl hphase)
      (Or.inl ((write_phase ws data).trans hphase))⟩
  | writeNocopy data hphase =>
    exact ⟨done, todo, rfl, h.hold (write_sameInput ws data) (Or.inl hphase)
      (Or.inl ((write_phase ws data).trans hphase))⟩
  | send msgType hphase =>
    exact ⟨done, todo, rfl, h.hold ⟨rfl, rfl, rfl, rfl, rfl, rfl⟩ (Or.inl hphase)
      (Or.inr (Or.inl ⟨_, rfl⟩))⟩
  | sendMessage msgType hphase =>
    exact ⟨done, todo, rfl, h.hold ⟨rfl, rfl, rfl, rfl, rfl, rfl⟩ (Or.inl hphase)
      (Or.inr (Or.inl ⟨_, rfl⟩))⟩
  | receive hphase =>
    exact (receive_proceeds hlib hs hgot h (Or.inl hphase) (SameInput.refl ws)).along

/-- What a websocket that reads has in its receive buffer. -/
theorem Follows.receiving (h : Follows lib maxSize maxCount got done ws) (hphase : ws.phase = .receiving) :
    Between lib done got ws ∧ (lib.frame ws.receiveBuffer).isComplete = false := by
  have hc := h.consistent
  unfold Consistent at hc
  rwa [hphase] at hc

/-- **A read never overflows the receive buffer**: it holds less than one frame. -/
theorem consume_proceeds (hlib : Lawful lib) (hs : Transmittable lib maxSize maxCount (done ++ todo))
    (h : Follows lib maxSize maxCount got done ws) (hphase : ws.phase = .receiving) {data : Bytes}
    (hne : data ≠ []) (hle : data.length ≤ readBufferSize)
    (hgot : got ++ data <+: (done ++ todo).flatten) :
    Proceeds lib maxSize maxCount (got ++ data) done todo (ws.consume lib data) := by
  obtain ⟨hb, hinc⟩ := h.receiving hphase
  have hbuf : ws.receiveBuffer ++ data <+: todo.flatten := by
    rw [hb.got, List.flatten_append, List.append_assoc] at hgot
    exact (List.prefix_append_right_inj _).mp hgot
  have hroom : ws.receiveBufferOverflow data.length = false := by
    unfold Websocket.receiveBufferOverflow
    rw [decide_eq_false_iff_not, h.maxSize]
    rcases front_of_frames hlib hs.isFrame ((List.prefix_append _ _).trans hbuf) with
      ⟨_, _, hshort⟩ | ⟨f, todo', rest, rfl, hfront⟩
    · cases todo with
      | nil => exact absurd (List.append_eq_nil_iff.mp (List.prefix_nil.mp hbuf)).2 hne
      | cons f todo' =>
        have hfits := (hs.admissible f (List.mem_append_right _ List.mem_cons_self)).fits
        have hlt := hshort f todo' rfl
        omega
    · -- a whole frame would have been taken
      have hf := (hs.admissible f (List.mem_append_right _ List.mem_cons_self)).isFrame
      rw [hfront, hf.append hlib, hf.complete] at hinc
      cases hinc
  unfold Websocket.consume
  rw [if_neg (by rw [hroom]; decide)]
  refine process_proceeds hlib hs hgot h.maxSize h.maxCount ⟨hb.frames, hb.messages, ?_⟩
  rw [hb.got, List.append_assoc]
  rfl

/-! ## Runs -/

/-- A websocket on a connection that works, with an application that answers, and the reads
that have completed on it so far. -/
inductive Attended (lib : WebsocketLibrary) (ws₀ : Websocket) : List Bytes → Websocket → Prop where
  | start : Attended lib ws₀ [] (ws₀.start lib)
  | works {reads : List Bytes} {ws ws' : Websocket} (h : Attended lib ws₀ reads ws)
      (hw : Websocket.Works lib ws ws') : Attended lib ws₀ reads ws'
  | read {reads : List Bytes} {ws : Websocket} (h : Attended lib ws₀ reads ws) (data : Bytes)
      (hphase : ws.phase = .receiving) (hne : data ≠ []) (hle : data.length ≤ readBufferSize) :
      Attended lib ws₀ (reads ++ [data]) (ws.consume lib data)

/-- A websocket that has just been started has taken no frame. -/
theorem start_follows (lib : WebsocketLibrary) (req : HttpRequest) (maxSize maxCount : Nat) :
    Follows lib maxSize maxCount [] [] ((Websocket.new req maxSize maxCount).start lib) := by
  have hsame : SameInput (Websocket.new req maxSize maxCount) _ := start_sameInput lib _
  refine ⟨hsame.receiveBufferMaxSize, hsame.framesMaxCount, ?_⟩
  exact (consistent_holds (Or.inr (Or.inr ⟨.onOpen, rfl⟩))).mpr (between_clear_congr hsame ⟨rfl, rfl, rfl⟩)

section runs

variable {req : HttpRequest} {fs reads : List Bytes}

/-- **Every run keeps the invariant.** -/
theorem Attended.follows (hlib : Lawful lib) (hs : Transmittable lib maxSize maxCount fs)
    (h : Attended lib (.new req maxSize maxCount) reads ws) (hstream : reads.flatten <+: fs.flatten) :
    Along (Follows lib maxSize maxCount reads.flatten) fs ws := by
  induction h with
  | start => exact ⟨[], fs, rfl, start_follows lib req maxSize maxCount⟩
  | works h hw ih =>
    obtain ⟨done, todo, rfl, hfollows⟩ := ih hstream
    exact works_follows hlib hs hstream hfollows hw
  | read h data hphase hne hle ih =>
    rw [List.flatten_append, List.flatten_singleton] at hstream ⊢
    obtain ⟨done, todo, rfl, hfollows⟩ := ih ((List.prefix_append _ _).trans hstream)
    exact (consume_proceeds hlib hs hfollows hphase hne hle hstream).along

/-- When the write has completed, the application has the websocket or the next frame is
looked for. -/
theorem Attended.after_sending (hlib : Lawful lib)
    (hs : Transmittable lib maxSize maxCount (done ++ todo)) {ws₀ : Websocket}
    (h : Attended lib ws₀ reads ws) (hfollows : Follows lib maxSize maxCount reads.flatten done ws)
    (hstream : reads.flatten <+: (done ++ todo).flatten) (hold : Holds ws) :
    ∃ ws', Attended lib ws₀ reads ws' ∧ Proceeds lib maxSize maxCount reads.flatten done todo ws' := by
  -- the application always chooses to receive
  have happlication : ∀ ws', Attended lib ws₀ reads ws' → SameInput ws ws' → ws'.phase = .application →
      ∃ ws'', Attended lib ws₀ reads ws'' ∧ Proceeds lib maxSize maxCount reads.flatten done todo ws'' :=
    fun ws' h' hsame hphase =>
      ⟨_, h'.works (.receive ws' hphase), receive_proceeds hlib hs hstream hfollows hold hsame⟩
  have hsending : ∀ ws' next, Attended lib ws₀ reads ws' → SameInput ws ws' → ws'.phase = .sending next →
      ∃ ws'', Attended lib ws₀ reads ws'' ∧ Proceeds lib maxSize maxCount reads.flatten done todo ws'' := by
    intro ws' next h' hsame hphase
    have hnext := h'.works (.sent ws' next hphase)
    have hclear : SameInput ws ws'.clearPayload := hsame.trans ⟨rfl, rfl, rfl, rfl, rfl, rfl⟩
    cases next with
    | onOpen => exact happlication _ hnext (hclear.trans ⟨rfl, rfl, rfl, rfl, rfl, rfl⟩) rfl
    | receive => exact ⟨_, hnext, receive_proceeds hlib hs hstream hfollows hold hclear⟩
    | handler => exact happlication _ hnext (hclear.trans ⟨rfl, rfl, rfl, rfl, rfl, rfl⟩) rfl
  rcases hold with hphase | ⟨next, hphase⟩ | ⟨next, hphase⟩
  · exact happlication ws h (SameInput.refl ws) hphase
  · exact hsending _ next (h.works (.posted ws _ hphase)) ⟨rfl, rfl, rfl, rfl, rfl, rfl⟩ rfl
  · exact hsending ws next h (SameInput.refl ws) hphase

/-- A websocket that does not wait for a read takes the next frame, or comes to wait. -/
theorem Attended.proceed (hlib : Lawful lib) (hs : Transmittable lib maxSize maxCount (done ++ todo))
    {ws₀ : Websocket} (h : Attended lib ws₀ reads ws)
    (hfollows : Follows lib maxSize maxCount reads.flatten done ws)
    (hstream : reads.flatten <+: (done ++ todo).flatten) (hphase : ws.phase ≠ .receiving) :
    ∃ ws', Attended lib ws₀ reads ws' ∧ Proceeds lib maxSize maxCount reads.flatten done todo ws' := by
  have hc := hfollows.consistent
  unfold Consistent at hc
  cases hp : ws.phase with
  | created => rw [hp] at hc; exact hc.elim
  | closing => rw [hp] at hc; exact hc.elim
  | closed => rw [hp] at hc; exact hc.elim
  | receiving => exact absurd hp hphase
  | application => exact h.after_sending hlib hs hfollows hstream (Or.inl hp)
  | sending next => exact h.after_sending hlib hs hfollows hstream (Or.inr (Or.inr ⟨next, hp⟩))
  | posted task =>
    cases task with
    | sendInternal next => exact h.after_sending hlib hs hfollows hstream (Or.inr (Or.inl ⟨next, hp⟩))
    | processReceiveBuffer =>
      rw [hp] at hc
      exact ⟨_, h.works (.posted ws _ hp),
        process_proceeds hlib hs hstream hfollows.maxSize hfollows.maxCount hc⟩

/-- Taking frames brings the websocket back to reading. -/
theorem Attended.drain (hlib : Lawful lib) (hs : Transmittable lib maxSize maxCount fs)
    (h : Attended lib (.new req maxSize maxCount) reads ws) (hstream : reads.flatten <+: fs.flatten) :
    ∃ ws', Attended lib (.new req maxSize maxCount) reads ws' ∧ ws'.phase = .receiving := by
  refine Lib.drain ?_ h (h.follows hlib hs hstream)
  intro done todo ws hsplit hrun hfollows hphase
  subst hsplit
  exact hrun.proceed hlib hs hfollows hstream hphase

/-- The websocket gets through any reads. -/
theorem exists_attended (hlib : Lawful lib) (hs : Transmittable lib maxSize maxCount fs)
    (hreads : ∀ b ∈ reads, b ≠ [] ∧ b.length ≤ readBufferSize) (hstream : reads.flatten <+: fs.flatten) :
    ∃ ws, Attended lib (.new req maxSize maxCount) reads ws ∧ ws.phase = .receiving := by
  refine Lib.exists_run ?_ ?_ reads hreads hstream
  · exact Attended.start.drain hlib hs (List.nil_prefix)
  · intro reads data ws h hphase hdata hstream
    exact (h.read data hphase hdata.1 hdata.2).drain hlib hs hstream

theorem Consistent.messages (h : Consistent lib done got ws) :
    ws.messages = (assembled lib done).messages := by
  unfold Consistent at h
  split at h
  · exact h.1.messages
  · exact h.messages
  · exact (clearFramesCache_messages lib ws).symm.trans h.messages
  · exact (clearFramesCache_messages lib ws).symm.trans h.messages
  · exact (clearFramesCache_messages lib ws).symm.trans h.messages
  · exact h.elim
  · exact h.elim
  · exact h.elim

/-- **Any complete run comes to the messages that the frames make**: a websocket that waits
for a read holds no whole frame. -/
theorem Attended.messages (hlib : Lawful lib) (hs : Transmittable lib maxSize maxCount fs)
    (h : Attended lib (.new req maxSize maxCount) reads ws) (hphase : ws.phase = .receiving)
    (hstream : reads.flatten = fs.flatten) : ws.messages = (assembled lib fs).messages := by
  obtain ⟨done, todo, rfl, hfollows⟩ := h.follows hlib hs ⟨[], by rw [List.append_nil, hstream]⟩
  obtain ⟨hb, hinc⟩ := hfollows.receiving hphase
  have hbuf : ws.receiveBuffer = todo.flatten := by
    have hgot := hb.got
    rw [hstream, List.flatten_append] at hgot
    exact (List.append_cancel_left hgot).symm
  cases todo with
  | nil =>
    rw [List.append_nil]
    exact hb.messages
  | cons f todo' =>
    have hf := hs.isFrame f List.mem_cons_self
    rw [hbuf, List.flatten_cons, hf.append hlib, hf.complete] at hinc
    cases hinc

/-- The messages of a run so far are the first ones, and the library has not closed the
connection. -/
theorem Attended.so_far (hlib : Lawful lib) (hs : Transmittable lib maxSize maxCount fs)
    (h : Attended lib (.new req maxSize maxCount) reads ws) (hstream : reads.flatten <+: fs.flatten) :
    ws.phase ≠ .closing ∧ ws.phase ≠ .closed ∧
      ∃ done, done <+: fs ∧ ws.messages = (assembled lib done).messages := by
  obtain ⟨done, todo, rfl, hfollows⟩ := h.follows hlib hs hstream
  have hc := hfollows.consistent
  refine ⟨fun hp => ?_, fun hp => ?_, done, List.prefix_append _ _, hc.messages⟩
  · unfold Consistent at hc
    rw [hp] at hc
    exact hc
  · unfold Consistent at hc
    rw [hp] at hc
    exact hc

end runs

end Pion.Proof
