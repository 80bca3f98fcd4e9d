import Mathlib.Data.List.DropRight
import Pion.Proof.Reassembly

/-!
# What pings do to messages

`on_ping` ends in `receive`, and `receive` clears the frames, all of them. So a ping that
comes in the middle of a message takes the fragments in front of it out of the message.

Two streams are compared, one with pings and the same without. What is `lost` of the
message at hand is what the second keeps and the first does not; whether the messages look
the same is decided when a final frame makes messages of both.
-/

namespace Pion.Proof

open Pion

variable {lib : WebsocketLibrary} {maxSize maxCount : Nat}

def isPing (lib : WebsocketLibrary) (f : Bytes) : Bool := (lib.frame f).type = .ping

def withoutPings (lib : WebsocketLibrary) (fs : List Bytes) : List Bytes := fs.filter fun f => !isPing lib f

/-- The fragments of a message that is not complete yet. -/
def pending (lib : WebsocketLibrary) (fs : List Bytes) : List Bytes :=
  (withoutPings lib fs).rtakeWhile fun f => !(lib.frame f).isFinal

/-- Some property of the frames in front of each ping. -/
def EachPing (lib : WebsocketLibrary) (Q : List Bytes → Prop) (fs : List Bytes) : Prop :=
  ∀ front p back, fs = front ++ p :: back → isPing lib p = true → Q front

/-- No ping comes behind a fragment that carries payload, and in front of the end of its
message. -/
def Harmless (lib : WebsocketLibrary) (fs : List Bytes) : Prop :=
  EachPing lib (fun front => ∀ f ∈ pending lib front, (lib.frame f).payloadUnmasked = []) fs

/-- No ping comes between two frames of a message. -/
def Outside (lib : WebsocketLibrary) (fs : List Bytes) : Prop :=
  EachPing lib (fun front => pending lib front = []) fs

theorem eachPing_nil {Q : List Bytes → Prop} : EachPing lib Q [] := fun _ _ _ heq =>
  absurd heq.symm (List.append_ne_nil_of_right_ne_nil _ (List.cons_ne_nil _ _))

theorem eachPing_snoc {Q : List Bytes → Prop} (fs : List Bytes) (f : Bytes) :
    EachPing lib Q (fs ++ [f]) ↔ EachPing lib Q fs ∧ (isPing lib f = true → Q fs) := by
  constructor
  · intro h
    refine ⟨fun front p back heq => h front p (back ++ [f]) ?_, h fs f [] rfl⟩
    rw [heq, List.append_assoc]
    rfl
  · rintro ⟨hfs, hf⟩ front p back heq hp
    rcases List.eq_nil_or_concat back with rfl | ⟨back', g, rfl⟩
    · obtain ⟨rfl, he⟩ := List.append_inj' heq rfl
      obtain rfl := List.singleton_injective he
      exact hf hp
    · rw [List.concat_eq_append, ← List.cons_append, ← List.append_assoc] at heq
      exact hfs front p back' (List.append_inj' heq rfl).1 hp

theorem withoutPings_append (fs gs : List Bytes) :
    withoutPings lib (fs ++ gs) = withoutPings lib fs ++ withoutPings lib gs := List.filter_append ..

theorem withoutPings_ping (fs : List Bytes) {f : Bytes} (h : isPing lib f = true) :
    withoutPings lib (fs ++ [f]) = withoutPings lib fs := by
  rw [withoutPings_append]
  unfold withoutPings
  rw [List.filter_cons_of_neg (by rw [h]; decide), List.filter_nil, List.append_nil]

theorem withoutPings_data (fs : List Bytes) {f : Bytes} (h : isPing lib f = false) :
    withoutPings lib (fs ++ [f]) = withoutPings lib fs ++ [f] := by
  rw [withoutPings_append]
  unfold withoutPings
  rw [List.filter_cons_of_pos (by rw [h]; decide), List.filter_nil]

theorem pending_ping (fs : List Bytes) {f : Bytes} (h : isPing lib f = true) :
    pending lib (fs ++ [f]) = pending lib fs := by
  unfold pending
  rw [withoutPings_ping fs h]

theorem pending_fragment (fs : List Bytes) {f : Bytes} (h : isPing lib f = false)
    (hfinal : (lib.frame f).isFinal = false) : pending lib (fs ++ [f]) = pending lib fs ++ [f] := by
  unfold pending
  rw [withoutPings_data fs h, List.rtakeWhile_concat_pos _ _ _ (by rw [hfinal]; rfl)]

theorem pending_final (fs : List Bytes) {f : Bytes} (h : isPing lib f = false)
    (hfinal : (lib.frame f).isFinal = true) : pending lib (fs ++ [f]) = [] := by
  unfold pending
  rw [withoutPings_data fs h, List.rtakeWhile_concat_neg _ _ _ (by rw [hfinal]; decide)]

theorem type_ne_ping {f : Bytes} (h : isPing lib f = false) : (lib.frame f).type ≠ .ping :=
  of_decide_eq_false h

/-- Without pings, what is pending is what is kept. -/
theorem kept_withoutPings (lib : WebsocketLibrary) (fs : List Bytes) :
    (assembled lib (withoutPings lib fs)).kept = pending lib fs := by
  induction fs using List.reverseRecOn with
  | nil => rfl
  | append_singleton fs f ih =>
    cases hp : isPing lib f with
    | true => rw [withoutPings_ping fs hp, pending_ping fs hp, ih]
    | false =>
      rw [withoutPings_data fs hp, assembled_snoc]
      cases hfinal : (lib.frame f).isFinal with
      | false => rw [add_fragment hfinal, pending_fragment fs hp hfinal, ← ih]
      | true => rw [add_final hfinal (type_ne_ping hp), pending_final fs hp hfinal]

/-! ## Two streams -/

section observed

variable {β : Type} {look : WsMessage → β} {L : List Bytes → Prop}

/-- **What an observer can tell.** `look` is what is looked at in a message, and `L` says
which frames may be lost without anything to be seen of it. -/
theorem observed_iff (hnil : L []) (hfront : ∀ lost kept, L (lost ++ kept) → L lost) (fs : List Bytes)
    (hfinal : ∀ f ∈ fs, isPing lib f = true → (lib.frame f).isFinal = true)
    (hlook : ∀ front f back lost kept, withoutPings lib fs = front ++ f :: back →
      (lib.frame f).isFinal = true → (assembled lib front).kept = lost ++ kept →
      (look (messageOf lib (kept ++ [f])) = look (messageOf lib (lost ++ kept ++ [f])) ↔ L lost)) :
    ∃ lost, pending lib fs = lost ++ (assembled lib fs).kept ∧
      ((assembled lib fs).messages.map look = (assembled lib (withoutPings lib fs)).messages.map look ∧
        L lost ↔ EachPing lib (fun front => L (pending lib front)) fs) := by
  induction fs using List.reverseRecOn with
  | nil => exact ⟨[], rfl, fun _ => eachPing_nil, fun _ => ⟨rfl, hnil⟩⟩
  | append_singleton fs f ih =>
    obtain ⟨lost, hlost, hiff⟩ := ih (fun g hg => hfinal g (List.mem_append_left _ hg))
      (fun front g back lost kept heq => by
        refine hlook front g (back ++ withoutPings lib [f]) lost kept ?_
        rw [withoutPings_append, heq, List.append_assoc]
        rfl)
    rw [eachPing_snoc, assembled_snoc]
    cases hp : isPing lib f with
    | true =>
      -- everything that is pending is lost from here on
      have hf := hfinal f (List.mem_append_right _ (List.mem_singleton.mpr rfl)) hp
      rw [add_ping hf (of_decide_eq_true hp), withoutPings_ping fs hp, pending_ping fs hp]
      refine ⟨pending lib fs, (List.append_nil _).symm, ?_⟩
      constructor
      · rintro ⟨hmsgs, hL⟩
        exact ⟨hiff.mp ⟨hmsgs, hfront lost _ (hlost ▸ hL)⟩, fun _ => hL⟩
      · rintro ⟨heach, hL⟩
        exact ⟨(hiff.mpr heach).1, hL rfl⟩
    | false =>
      rw [withoutPings_data fs hp, assembled_snoc]
      cases hf : (lib.frame f).isFinal with
      | false =>
        rw [add_fragment hf, add_fragment hf, pending_fragment fs hp hf]
        refine ⟨lost, by rw [hlost, List.append_assoc], ?_⟩
        exact hiff.trans ⟨fun h => ⟨h, fun he => by cases he⟩, fun h => h.1⟩
      | true =>
        -- a message is made of both, and what was lost shows or does not
        rw [add_final hf (type_ne_ping hp), add_final hf (type_ne_ping hp), pending_final fs hp hf]
        refine ⟨[], rfl, ?_⟩
        have hkept := (kept_withoutPings lib fs).trans hlost
        have hsees := hlook (withoutPings lib fs) f [] lost _ (withoutPings_data fs hp) hf hkept
        rw [List.map_append, List.map_append, List.map_singleton, List.map_singleton, hkept]
        constructor
        · rintro ⟨hmsgs, -⟩
          obtain ⟨hinit, hlast⟩ := List.append_inj' hmsgs rfl
          refine ⟨hiff.mp ⟨hinit, hsees.mp (List.singleton_injective hlast)⟩, fun he => by cases he⟩
        · rintro ⟨heach, -⟩
          obtain ⟨hinit, hL⟩ := hiff.mpr heach
          exact ⟨by rw [hinit, hsees.mpr hL], hnil⟩

end observed

/-! ## Messages with pings -/

theorem messageOf_append_data (fs gs : List Bytes) :
    (messageOf lib (fs ++ gs)).data = (messageOf lib fs).data ++ (messageOf lib gs).data := by
  unfold messageOf
  rw [List.map_append, List.flatten_append]

theorem messageOf_data_eq_nil (fs : List Bytes) :
    (messageOf lib fs).data = [] ↔ ∀ f ∈ fs, (lib.frame f).payloadUnmasked = [] := by
  unfold messageOf
  rw [List.flatten_eq_nil_iff]
  exact List.forall_mem_map

/-- The data of a message shows every byte that was lost. -/
theorem data_shows (lost kept : List Bytes) (f : Bytes) :
    (messageOf lib (kept ++ [f])).data = (messageOf lib (lost ++ kept ++ [f])).data ↔
      ∀ g ∈ lost, (lib.frame g).payloadUnmasked = [] := by
  rw [List.append_assoc, messageOf_append_data lost, ← messageOf_data_eq_nil, List.self_eq_append_left]

/-- The frame that completes a message, and what is kept in front of it. -/
theorem message_completed {ms : List (List Bytes)} (hms : ∀ m ∈ ms, DataMessage lib maxSize maxCount m)
    {front back : List Bytes} {f : Bytes} (heq : ms.flatten = front ++ f :: back)
    (hfinal : (lib.frame f).isFinal = true) : (assembled lib front).kept ++ [f] ∈ ms := by
  obtain ⟨m, hm, c, hc⟩ := inside_message hms heq (a := {}) rfl
  have hnil : c = [] := by
    by_contra hne
    have hfragment := (hms m hm).fragment f (by
      rw [hc, List.dropLast_append_of_ne_nil (List.cons_ne_nil _ _), List.dropLast_cons_of_ne_nil hne]
      exact List.mem_append_right _ List.mem_cons_self)
    rw [hfinal] at hfragment
    cases hfragment
  subst hnil
  exact hc ▸ hm

/-- The type of a message shows that its first frame was lost. -/
theorem type_shows {m : List Bytes} (hm : DataMessage lib maxSize maxCount m) {lost kept : List Bytes} {f : Bytes}
    (heq : m = lost ++ kept ++ [f]) :
    messageOf lib (kept ++ [f]) = messageOf lib (lost ++ kept ++ [f]) ↔ lost = [] := by
  constructor
  · intro h
    cases lost with
    | nil => rfl
    | cons g lost =>
      exfalso
      have hfirst := hm.first g (by rw [heq]; rfl)
      -- the first frame that is left is not the first of its message
      obtain ⟨k, ks, hk⟩ : ∃ k ks, kept ++ [f] = k :: ks :=
        List.exists_cons_of_ne_nil (List.append_ne_nil_of_right_ne_nil _ (List.cons_ne_nil _ _))
      have hrest : (lib.frame k).type = .continuation := by
        refine hm.rest k ?_
        rw [heq, List.append_assoc, hk]
        exact List.mem_append_right _ List.mem_cons_self
      have htype : (lib.frame k).type = (lib.frame g).type := by
        rw [hk] at h
        exact congrArg WsMessage.type h
      rw [hrest] at htype
      rcases hfirst with ht | ht
      · rw [ht] at htype
        cases htype
      · rw [ht] at htype
        cases htype
  · rintro rfl
    rfl

/-- The messages `ms` with pings at any places between the frames. -/
@[mk_iff]
structure WithPings (lib : WebsocketLibrary) (maxSize maxCount : Nat) (ms : List (List Bytes))
    (fs : List Bytes) : Prop where
  message : ∀ m ∈ ms, DataMessage lib maxSize maxCount m
  data : withoutPings lib fs = ms.flatten
  ping : ∀ f ∈ fs, isPing lib f = true →
    IsFrame lib f ∧ (lib.frame f).isFinal = true ∧ f.length + readBufferSize ≤ maxSize

theorem WithPings.final {ms : List (List Bytes)} {fs : List Bytes} (h : WithPings lib maxSize maxCount ms fs) :
    ∀ f ∈ fs, isPing lib f = true → (lib.frame f).isFinal = true :=
  fun f hf hp => (h.ping f hf hp).2.1

section streams

variable {ms : List (List Bytes)} {fs : List Bytes}

/-- Whether the data of the messages is that without the pings. -/
theorem data_observed (hfinal : ∀ f ∈ fs, isPing lib f = true → (lib.frame f).isFinal = true) :
    ∃ lost, pending lib fs = lost ++ (assembled lib fs).kept ∧
      ((assembled lib fs).messages.map WsMessage.data =
          (assembled lib (withoutPings lib fs)).messages.map WsMessage.data ∧
        (∀ f ∈ lost, (lib.frame f).payloadUnmasked = []) ↔ Harmless lib fs) := by
  refine observed_iff ?_ ?_ fs hfinal ?_
  · intro f hf
    cases hf
  · intro lost kept h f hf
    exact h f (List.mem_append_left _ hf)
  · intro front f back lost kept _ _ _
    exact data_shows lost kept f

/-- Whether the messages are those without the pings. -/
theorem messages_observed (h : WithPings lib maxSize maxCount ms fs) :
    ∃ lost, pending lib fs = lost ++ (assembled lib fs).kept ∧
      ((assembled lib fs).messages.map id = (assembled lib (withoutPings lib fs)).messages.map id ∧
        lost = [] ↔ Outside lib fs) := by
  refine observed_iff ?_ ?_ fs h.final ?_
  · exact rfl
  · intro lost kept hnil
    exact (List.append_eq_nil_iff.mp hnil).1
  · intro front f back lost kept heq hfinal hkept
    have hm := message_completed h.message (h.data.symm.trans heq) hfinal
    rw [hkept] at hm
    exact type_shows (h.message _ hm) rfl

/-- The websocket can take the messages with the pings: no more frames are kept than
without them. -/
theorem WithPings.transmittable (h : WithPings lib maxSize maxCount ms fs) :
    Transmittable lib maxSize maxCount fs := by
  constructor
  · intro f hf
    cases hp : isPing lib f with
    | true =>
      obtain ⟨hframe, _, hfits⟩ := h.ping f hf hp
      exact ⟨hframe, hfits, fun _ => Or.inr (Or.inr (Or.inr (of_decide_eq_true hp)))⟩
    | false =>
      have hmem : f ∈ ms.flatten := by
        rw [← h.data]
        exact List.mem_filter.mpr ⟨hf, by rw [hp]; rfl⟩
      obtain ⟨m, hm, hfm⟩ := List.mem_flatten.mp hmem
      exact (h.message m hm).admissible hfm
  · intro front f back heq hfinal
    have hfront : ∀ g ∈ front, isPing lib g = true → (lib.frame g).isFinal = true := by
      intro g hg
      exact h.final g (by rw [heq]; exact List.mem_append_left _ hg)
    have hp : isPing lib f = false := by
      by_contra hp
      have hf := h.final f (by rw [heq]; exact List.mem_append_right _ List.mem_cons_self)
        (eq_true_of_ne_false hp)
      rw [hfinal] at hf
      cases hf
    have hsplit : ms.flatten = withoutPings lib front ++ f :: withoutPings lib back := by
      rw [← h.data, heq, List.append_cons, withoutPings_append, withoutPings_data front hp, List.append_assoc]
      rfl
    obtain ⟨lost, hlost, _⟩ := data_observed hfront
    have hcount := kept_lt_maxCount h.message hsplit hfinal
    rw [kept_withoutPings, hlost, List.length_append] at hcount
    omega

/-- **When pings do not disturb messages.** The websocket gets through the messages, with
the pings and without. The data that `on_message` is called with is the same exactly if no
ping comes behind a fragment with payload inside of a message, and so is the type of each
message exactly if no ping comes inside of a message at all. -/
theorem pings_undisturbing_iff (hlib : Lawful lib) (h : WithPings lib maxSize maxCount ms fs)
    (req : HttpRequest) (reads plain : List Bytes)
    (hreads : ∀ b ∈ reads, b ≠ [] ∧ b.length ≤ readBufferSize)
    (hplain : ∀ b ∈ plain, b ≠ [] ∧ b.length ≤ readBufferSize)
    (hstream : reads.flatten = fs.flatten) (hdata : plain.flatten = ms.flatten.flatten) :
    (∃ ws, Attended lib (.new req maxSize maxCount) reads ws ∧ ws.phase = .receiving) ∧
    (∃ ws, Attended lib (.new req maxSize maxCount) plain ws ∧ ws.phase = .receiving) ∧
    ∀ ws ws', Attended lib (.new req maxSize maxCount) reads ws → ws.phase = .receiving →
      Attended lib (.new req maxSize maxCount) plain ws' → ws'.phase = .receiving →
      (ws.messages.map WsMessage.data = ws'.messages.map WsMessage.data ↔ Harmless lib fs) ∧
      (ws.messages = ws'.messages ↔ Outside lib fs) := by
  have hs := h.transmittable
  have hs' := transmittable_messages h.message
  refine ⟨exists_attended hlib hs hreads ⟨[], by rw [List.append_nil, hstream]⟩,
    exists_attended hlib hs' hplain ⟨[], by rw [List.append_nil, hdata]⟩, ?_⟩
  intro ws ws' hrun hphase hrun' hphase'
  -- all messages are complete, so nothing is lost of what is pending
  have hpending : pending lib fs = [] := by
    rw [← kept_withoutPings, h.data, assembled_messages h.message]
  rw [hrun.messages hlib hs hphase hstream, hrun'.messages hlib hs' hphase' hdata, ← h.data]
  constructor
  · obtain ⟨lost, hlost, hiff⟩ := data_observed h.final
    rw [hpending] at hlost
    obtain rfl := (List.append_eq_nil_iff.mp hlost.symm).1
    exact ⟨fun he => hiff.mp ⟨he, fun f hf => by cases hf⟩, fun hharm => (hiff.mpr hharm).1⟩
  · obtain ⟨lost, hlost, hiff⟩ := messages_observed h
    rw [hpending] at hlost
    obtain rfl := (List.append_eq_nil_iff.mp hlost.symm).1
    rw [List.map_id, List.map_id] at hiff
    exact ⟨fun he => hiff.mp ⟨he, rfl⟩, fun hout => (hiff.mpr hout).1⟩

instance : Decidable (WithPings lib maxSize maxCount ms fs) :=
  decidable_of_iff' _ (withPings_iff lib maxSize maxCount ms fs)

end streams

/-- A message in two frames. -/
def splitMessage : List (List Bytes) := [[maskedFrame 0x01 (str "a"), maskedFrame 0x80 (str "b")]]

/-- A ping behind the message. -/
def pingBehind : List Bytes :=
  [maskedFrame 0x01 (str "a"), maskedFrame 0x80 (str "b"), maskedFrame 0x89 []]

/-- A ping between the frames of the message. -/
def pingInside : List Bytes :=
  [maskedFrame 0x01 (str "a"), maskedFrame 0x89 [], maskedFrame 0x80 (str "b")]

/-- A websocket with the limits that are the default. -/
def defaultWebsocket : Websocket :=
  .new handshakeRequest Websocket.defaultReceiveBufferMaxSize Websocket.defaultFramesMaxCount

theorem pingBehind_outside : Outside shortFrames pingBehind := by
  show EachPing shortFrames _ ((([] ++ [_]) ++ [_]) ++ [_])
  rw [eachPing_snoc, eachPing_snoc, eachPing_snoc]
  exact ⟨⟨⟨eachPing_nil, by decide +kernel⟩, by decide +kernel⟩, by decide +kernel⟩

theorem pings_undisturbing_iff_behind :
    ∃ ws ws', Attended shortFrames defaultWebsocket [pingBehind.flatten] ws ∧
      Attended shortFrames defaultWebsocket [splitMessage.flatten.flatten] ws' ∧
      ws.messages = ws'.messages := by
  have hping : WithPings shortFrames Websocket.defaultReceiveBufferMaxSize
      Websocket.defaultFramesMaxCount splitMessage pingBehind := by decide +kernel
  obtain ⟨⟨ws, h, hphase⟩, ⟨ws', h', hphase'⟩, hall⟩ := pings_undisturbing_iff shortFrames_lawful hping
    handshakeRequest [pingBehind.flatten] [splitMessage.flatten.flatten] (by decide +kernel)
    (by decide +kernel) (by decide +kernel) (by decide +kernel)
  exact ⟨ws, ws', h, h', (hall ws ws' h hphase h' hphase').2.mpr pingBehind_outside⟩

/-- With a ping between its frames, the message arrives without its first half. -/
theorem pings_undisturbing_inside :
    WithPings shortFrames Websocket.defaultReceiveBufferMaxSize Websocket.defaultFramesMaxCount
      splitMessage pingInside ∧
    ∃ ws ws', Attended shortFrames defaultWebsocket [pingInside.flatten] ws ∧ ws.phase = .receiving ∧
      Attended shortFrames defaultWebsocket [splitMessage.flatten.flatten] ws' ∧ ws'.phase = .receiving ∧
      ws.messages.map WsMessage.data = [str "b"] ∧ ws'.messages.map WsMessage.data = [str "ab"] := by
  have hping : WithPings shortFrames Websocket.defaultReceiveBufferMaxSize
      Websocket.defaultFramesMaxCount splitMessage pingInside := by decide +kernel
  have hs := hping.transmittable
  have hs' := transmittable_messages hping.message
  obtain ⟨ws, h, hphase⟩ : ∃ ws, Attended shortFrames defaultWebsocket [pingInside.flatten] ws ∧
      ws.phase = .receiving := exists_attended shortFrames_lawful hs (by decide +kernel) (by decide +kernel)
  obtain ⟨ws', h', hphase'⟩ : ∃ ws, Attended shortFrames defaultWebsocket
      [splitMessage.flatten.flatten] ws ∧ ws.phase = .receiving :=
    exists_attended shortFrames_lawful hs' (by decide +kernel) (by decide +kernel)
  refine ⟨hping, ws, ws', h, hphase, h', hphase', ?_, ?_⟩
  · rw [h.messages shortFrames_lawful hs hphase (by decide +kernel)]
    decide +kernel
  · rw [h'.messages shortFrames_lawful hs' hphase' (by decide +kernel)]
    decide +kernel

end Pion.Proof
