import Pion.Proof.Assembly

/-!
# Messages are put together again

The frames of a data message are fragments and a final frame. They come to one message, and
never more fragments are kept than it has.
-/

namespace Pion.Proof

open Pion

variable {lib : WebsocketLibrary} {maxSize maxCount : Nat}

/-! ## Messages -/

/-- The frames of one data message. -/
@[mk_iff]
structure DataMessage (lib : WebsocketLibrary) (maxSize maxCount : Nat) (m : List Bytes) : Prop where
  isFrame : ∀ f ∈ m, IsFrame lib f
  fits : ∀ f ∈ m, f.length + readBufferSize ≤ maxSize
  ne : m ≠ []
  first : ∀ f ∈ m.head?, (lib.frame f).type = .text ∨ (lib.frame f).type = .binary
  rest : ∀ f ∈ m.tail, (lib.frame f).type = .continuation
  fragment : ∀ f ∈ m.dropLast, (lib.frame f).isFinal = false
  last : ∀ f ∈ m.getLast?, (lib.frame f).isFinal = true
  count : m.dropLast.length ≤ maxCount

instance (m : List Bytes) : Decidable (DataMessage lib maxSize maxCount m) :=
  decidable_of_iff' _ (dataMessage_iff lib maxSize maxCount m)

theorem DataMessage.data {m : List Bytes} (h : DataMessage lib maxSize maxCount m) {f : Bytes} (hf : f ∈ m) :
    (lib.frame f).type = .text ∨ (lib.frame f).type = .binary ∨ (lib.frame f).type = .continuation := by
  cases m with
  | nil => cases hf
  | cons g m =>
    rcases List.mem_cons.mp hf with rfl | hf
    · rcases h.first f rfl with ht | ht
      · exact Or.inl ht
      · exact Or.inr (Or.inl ht)
    · exact Or.inr (Or.inr (h.rest f hf))

theorem DataMessage.admissible {m : List Bytes} (h : DataMessage lib maxSize maxCount m) {f : Bytes}
    (hf : f ∈ m) : Admissible lib maxSize f := by
  refine ⟨h.isFrame f hf, h.fits f hf, fun _ => ?_⟩
  rcases h.data hf with ht | ht | ht
  · exact Or.inl ht
  · exact Or.inr (Or.inl ht)
  · exact Or.inr (Or.inr (Or.inl ht))

/-- The fragments of a message are kept. -/
theorem kept_fragments {frags : List Bytes} (h : ∀ f ∈ frags, (lib.frame f).isFinal = false) (a : Assembly) :
    frags.foldl (Assembly.add lib) a = { a with kept := a.kept ++ frags } := by
  induction frags generalizing a with
  | nil => rw [List.append_nil]; rfl
  | cons f frags ih =>
    rw [List.foldl_cons, add_fragment (h f List.mem_cons_self),
      ih (fun g hg => h g (List.mem_cons_of_mem f hg)), List.append_cons a.kept f frags]

theorem DataMessage.foldl {m : List Bytes} (h : DataMessage lib maxSize maxCount m) {a : Assembly}
    (ha : a.kept = []) :
    m.foldl (Assembly.add lib) a = { kept := [], messages := a.messages ++ [messageOf lib m] } := by
  have hm := List.dropLast_append_getLast h.ne
  have hlast : m.getLast h.ne ∈ m.getLast? := List.getLast?_eq_getLast_of_ne_nil h.ne
  have hping : (lib.frame (m.getLast h.ne)).type ≠ .ping := by
    rcases h.data (List.getLast_mem h.ne) with ht | ht | ht <;> rw [ht] <;> decide
  rw [← hm, List.foldl_append, kept_fragments h.fragment, List.foldl_cons, List.foldl_nil,
    add_final (h.last _ hlast) hping, ha, List.nil_append]

theorem assembled_messages {ms : List (List Bytes)} (hms : ∀ m ∈ ms, DataMessage lib maxSize maxCount m) :
    assembled lib ms.flatten = { kept := [], messages := ms.map (messageOf lib) } := by
  induction ms using List.reverseRecOn with
  | nil => rfl
  | append_singleton ms m ih =>
    have hm := hms m (List.mem_append_right _ (List.mem_singleton.mpr rfl))
    rw [List.flatten_append, List.flatten_singleton, assembled_append,
      ih (fun m hm => hms m (List.mem_append_left _ hm)), hm.foldl rfl, List.map_append, List.map_singleton]

theorem foldl_messages_prefix (fs : List Bytes) (a : Assembly) :
    a.messages <+: (fs.foldl (Assembly.add lib) a).messages := by
  induction fs generalizing a with
  | nil => exact List.prefix_refl _
  | cons f fs ih =>
    refine List.IsPrefix.trans ?_ (ih (a.add lib f))
    unfold Assembly.add
    split
    · exact List.prefix_refl _
    · split
      · exact List.prefix_refl _
      · exact List.prefix_append _ _

/-- In front of any frame, what is kept is the beginning of its message. -/
theorem inside_message {ms : List (List Bytes)} (hms : ∀ m ∈ ms, DataMessage lib maxSize maxCount m)
    {front back : List Bytes} {f : Bytes} (heq : ms.flatten = front ++ f :: back) {a : Assembly}
    (ha : a.kept = []) : ∃ m ∈ ms, ∃ c, m = (front.foldl (Assembly.add lib) a).kept ++ f :: c := by
  induction ms generalizing front a with
  | nil => exact absurd heq.symm (List.append_ne_nil_of_right_ne_nil _ (List.cons_ne_nil _ _))
  | cons m ms ih =>
    have hm := hms m List.mem_cons_self
    have hms' := fun m hm => hms m (List.mem_cons_of_mem _ hm)
    let behind : Assembly := { kept := [], messages := a.messages ++ [messageOf lib m] }
    have hbehind : behind.kept = [] := rfl
    rw [List.flatten_cons] at heq
    rcases List.append_eq_append_iff.mp heq with ⟨c, rfl, hback⟩ | ⟨c, hfront, hback⟩
    · -- the frame is in a later message
      rw [List.foldl_append, hm.foldl ha]
      obtain ⟨m', hm', hc⟩ := ih hms' hback hbehind
      exact ⟨m', List.mem_cons_of_mem _ hm', hc⟩
    · cases c with
      | nil =>
        rw [List.append_nil] at hfront
        rw [← hfront, hm.foldl ha]
        have hnext : ms.flatten = [] ++ f :: back := hback.symm
        obtain ⟨m', hm', hc⟩ := ih hms' hnext hbehind
        exact ⟨m', List.mem_cons_of_mem _ hm', hc⟩
      | cons g c =>
        obtain ⟨rfl, _⟩ := List.cons.inj hback
        have hfragment : ∀ g ∈ front, (lib.frame g).isFinal = false := by
          intro g hg
          refine hm.fragment g ?_
          rw [hfront, List.dropLast_append_of_ne_nil (List.cons_ne_nil _ _)]
          exact List.mem_append_left _ hg
        rw [kept_fragments hfragment, ha, List.nil_append]
        exact ⟨m, List.mem_cons_self, c, hfront⟩

/-- In front of a fragment, fewer fragments are kept than its message has. -/
theorem kept_lt_maxCount {ms : List (List Bytes)} (hms : ∀ m ∈ ms, DataMessage lib maxSize maxCount m)
    {front back : List Bytes} {f : Bytes} (heq : ms.flatten = front ++ f :: back)
    (hfinal : (lib.frame f).isFinal = false) : (assembled lib front).kept.length < maxCount := by
  obtain ⟨m, hm, c, hc⟩ := inside_message hms heq (a := {}) rfl
  have hne : c ≠ [] := by
    rintro rfl
    have hlast := (hms m hm).last f (by rw [hc, List.getLast?_concat]; rfl)
    rw [hfinal] at hlast
    cases hlast
  have hcount := (hms m hm).count
  rw [hc, List.dropLast_append_of_ne_nil (List.cons_ne_nil _ _), List.dropLast_cons_of_ne_nil hne,
    List.length_append, List.length_cons] at hcount
  show ((front.foldl (Assembly.add lib) {}).kept).length < maxCount
  omega

theorem transmittable_messages {ms : List (List Bytes)}
    (hms : ∀ m ∈ ms, DataMessage lib maxSize maxCount m) :
    Transmittable lib maxSize maxCount ms.flatten := by
  refine ⟨fun f hf => ?_, fun front f back heq hfinal => kept_lt_maxCount hms heq hfinal⟩
  obtain ⟨m, hm, hfm⟩ := List.mem_flatten.mp hf
  exact (hms m hm).admissible hfm

/-- **Messages are put together again.** However the frames of some messages are delivered,
the websocket gets through, and when it has, `on_message` has been called once for each
message, in order, with the type of its first frame and the payloads of all its frames. On
the way there the calls are for the first messages, and the connection is not closed. -/
theorem messages_reassembled (hlib : Lawful lib) (ms : List (List Bytes))
    (hms : ∀ m ∈ ms, DataMessage lib maxSize maxCount m) (req : HttpRequest) (reads : List Bytes)
    (hreads : ∀ b ∈ reads, b ≠ [] ∧ b.length ≤ readBufferSize)
    (hstream : reads.flatten = ms.flatten.flatten) :
    (∃ ws, Attended lib (.new req maxSize maxCount) reads ws ∧ ws.phase = .receiving) ∧
    (∀ ws, Attended lib (.new req maxSize maxCount) reads ws → ws.phase = .receiving →
      ws.messages = ms.map (messageOf lib)) ∧
    (∀ front ws, front <+: reads → Attended lib (.new req maxSize maxCount) front ws →
      ws.phase ≠ .closing ∧ ws.phase ≠ .closed ∧ ws.messages <+: ms.map (messageOf lib)) := by
  have hs := transmittable_messages hms
  have hmsgs : (assembled lib ms.flatten).messages = ms.map (messageOf lib) := by
    rw [assembled_messages hms]
  refine ⟨exists_attended hlib hs hreads ⟨[], by rw [List.append_nil, hstream]⟩, ?_, ?_⟩
  · intro ws h hphase
    exact (h.messages hlib hs hphase hstream).trans hmsgs
  · intro front ws hfront h
    have hpre : front.flatten <+: ms.flatten.flatten := by
      obtain ⟨tl, rfl⟩ := hfront
      rw [← hstream, List.flatten_append]
      exact List.prefix_append _ _
    obtain ⟨hclosing, hclosed, done, ⟨todo, hdone⟩, hm⟩ := h.so_far hlib hs hpre
    refine ⟨hclosing, hclosed, ?_⟩
    rw [hm, ← hmsgs, ← hdone, assembled_append]
    exact foldl_messages_prefix todo _

/-! ## Short frames -/

/-- The inverse of itself. -/
def unmask (k₀ k₁ k₂ k₃ : UInt8) : Bytes → Bytes
  | [] => []
  | c :: cs => (c ^^^ k₀) :: unmask k₁ k₂ k₃ k₀ cs

def opcode : UInt8 → FrameType
  | 0 => .continuation
  | 1 => .text
  | 2 => .binary
  | 8 => .close
  | 9 => .ping
  | 10 => .pong
  | _ => .invalid

/-- The frame format of RFC 6455, for masked frames with up to 125 bytes of payload. -/
def shortFrame : Bytes → Frame
  | b₀ :: b₁ :: tail =>
    let length := (b₁ % 128).toNat
    { isWellFormed := b₀ / 16 % 8 = 0 && b₁ ≥ 128 && length < 126
      isComplete := 4 + length ≤ tail.length
      isFinal := b₀ ≥ 128
      type := opcode (b₀ % 16)
      size := 4 + length + 2
      payloadLength := length
      payloadUnmasked := match tail.take (4 + length) with
        | k₀ :: k₁ :: k₂ :: k₃ :: data => unmask k₀ k₁ k₂ k₃ data
        | _ => [] }
  | _ =>
    { isWellFormed := true, isComplete := false, isFinal := false, type := .invalid, size := 0
      payloadLength := 0, payloadUnmasked := [] }

def opcodeOf : FrameType → UInt8
  | .continuation => 0
  | .text => 1
  | .binary => 2
  | .close => 8
  | .ping => 9
  | .pong => 10
  | .invalid => 15

/-- The library on short frames, and on the key of the example in the RFC. -/
def shortFrames : WebsocketLibrary where
  frame := shortFrame
  makeHeader := fun type n => [128 + opcodeOf type, UInt8.ofNat n]
  makeResponseLine := str "HTTP/1.1 101 Switching Protocols\r\n"
  makeResponseHeaders := fun _ => [(str "Upgrade", str "websocket"), (str "Connection", str "Upgrade"),
    (str "Sec-WebSocket-Accept", str "s3pPLMBiTxaQ9kYGzzhZRbK+xOo=")]

theorem shortFrames_lawful : Lawful shortFrames where
  empty := ⟨rfl, rfl⟩
  size_le := by
    rintro (_ | ⟨b₀, _ | ⟨b₁, tail⟩⟩) hwf hc
    · cases hc
    · cases hc
    · have hc' : 4 + (b₁ % 128).toNat ≤ tail.length := of_decide_eq_true hc
      show 4 + (b₁ % 128).toNat + 2 ≤ tail.length + 2
      omega
  first := by
    rintro (_ | ⟨b₀, _ | ⟨b₁, tail⟩⟩) rest hwf hc
    · cases hc
    · cases hc
    · have hc' : 4 + (b₁ % 128).toNat ≤ tail.length := of_decide_eq_true hc
      have htake : (tail.take (4 + (b₁ % 128).toNat) ++ rest).take (4 + (b₁ % 128).toNat) =
          tail.take (4 + (b₁ % 128).toNat) := List.take_left' (List.length_take_of_le hc')
      have hlen : 4 + (b₁ % 128).toNat ≤ (tail.take (4 + (b₁ % 128).toNat) ++ rest).length := by
        rw [List.length_append, List.length_take_of_le hc']
        exact Nat.le_add_right _ _
      show shortFrame (b₀ :: b₁ :: (tail.take (4 + (b₁ % 128).toNat) ++ rest)) =
        shortFrame (b₀ :: b₁ :: tail)
      unfold shortFrame
      simp only [htake, hlen, hc']
  short := by
    rintro (_ | ⟨b₀, _ | ⟨b₁, tail⟩⟩) n hwf hc hn
    · cases hc
    · cases hc
    · match n with
      | 0 => exact ⟨rfl, rfl⟩
      | 1 => exact ⟨rfl, rfl⟩
      | n + 2 =>
        refine ⟨hwf, decide_eq_false fun hle => ?_⟩
        have hn' : n + 2 < 4 + (b₁ % 128).toNat + 2 := hn
        have := List.length_take_le n tail
        omega

/-- A frame as the test client makes it, with the mask `0x12345678`. -/
def maskedFrame (b₀ : UInt8) (payload : Bytes) : Bytes :=
  [b₀, 128 + UInt8.ofNat payload.length, 0x12, 0x34, 0x56, 0x78] ++ unmask 0x12 0x34 0x56 0x78 payload

/-- The messages of `check_continuation` and `check_tcp_fragment_split`. -/
def twoMessages : List (List Bytes) :=
  [[maskedFrame 0x01 (str "he"), maskedFrame 0x00 (str "l"), maskedFrame 0x80 (str "lo")],
    [maskedFrame 0x81 (str "bye")]]

/-- A handshake with the key of the example in the RFC. -/
def handshakeRequest : HttpRequest :=
  { headers := [(str "Sec-WebSocket-Key", str "dGhlIHNhbXBsZSBub25jZQ==")] }

/-- The second message is split, and so is a header in the first. -/
def twoMessagesReads : List Bytes :=
  [twoMessages.flatten.flatten.take 10, (twoMessages.flatten.flatten.drop 10).take 16,
    twoMessages.flatten.flatten.drop 26]

theorem messages_reassembled_two :
    ∃ ws, Attended shortFrames
        (.new handshakeRequest Websocket.defaultReceiveBufferMaxSize Websocket.defaultFramesMaxCount)
        twoMessagesReads ws ∧
      ws.messages = [{ type := .text, data := str "hello" }, { type := .text, data := str "bye" }] := by
  have hms : ∀ m ∈ twoMessages, DataMessage shortFrames Websocket.defaultReceiveBufferMaxSize
      Websocket.defaultFramesMaxCount m := by decide +kernel
  obtain ⟨⟨ws, h, hphase⟩, hall, _⟩ := messages_reassembled shortFrames_lawful twoMessages hms
    handshakeRequest twoMessagesReads (by decide +kernel) (by decide +kernel)
  refine ⟨ws, h, (hall ws h hphase).trans ?_⟩
  decide +kernel

end Pion.Proof
