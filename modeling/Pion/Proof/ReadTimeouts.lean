import Pion.Lib.Machine
import Pion.ReadTimeouts

/-!
# Timeouts of reads

A read that is outstanding has a wait of the timer that has not run: no read waits for ever. One that
fails, and so one that times out, is the last of its connection.

The other way round it is not so: a handler of the timer that is ready when the handler of the read
runs is not taken back, and strikes whatever the connection is doing by then.
-/

namespace Pion.Proof

open Pion Lib TimedSession

/-! ## Waits -/

/-- The wait for the read has not run and has not been aborted. -/
def LiveWait (w : TimedSession) (n : Nat) : Prop :=
  n ∈ w.unarmed ∨ n ∈ w.timer.armed ∨ (n, false) ∈ w.timer.ready

/-- The read is the one that the connection has outstanding. -/
def OutstandingRead (w : TimedSession) (n : Nat) : Prop := n + 1 = w.reads ∧ w.read ≠ .none

theorem goOn_cases (w : TimedSession) (c : Session) (inStrand : Bool) :
    (c.phase = .reading ∧ w.goOn c inStrand = { w with session := c }.readBytesWithTimeout inStrand) ∨
      (c.phase ≠ .reading ∧ w.goOn c inStrand = { w with session := c, read := .none }) := by
  unfold goOn
  cases h : c.phase with
  | reading => exact .inl ⟨rfl, rfl⟩
  | handling | closed | failed => exact .inr ⟨by simp, rfl⟩

/-- A wait for the new read is there, or is about to be. -/
theorem liveWait_read (w : TimedSession) (inStrand : Bool) :
    LiveWait (w.readBytesWithTimeout inStrand) w.reads := by
  cases inStrand with
  | true => exact .inr (.inl (List.mem_singleton_self _))
  | false => exact .inl (List.mem_append_right _ (List.mem_singleton_self _))

theorem liveWait_arm {w : TimedSession} {i m : Nat} (h : w.unarmed[i]? = some m) (n : Nat) :
    LiveWait { w with timer := w.timer.asyncWait m, unarmed := w.unarmed.eraseIdx i } n ↔ LiveWait w n := by
  obtain ⟨hi, rfl⟩ := List.getElem?_eq_some_iff.mp h
  have hmem : n ∈ w.unarmed ↔ n = w.unarmed[i] ∨ n ∈ w.unarmed.eraseIdx i :=
    (List.getElem_cons_eraseIdx_perm hi).mem_iff.symm.trans List.mem_cons
  unfold LiveWait
  dsimp only [WaitTimer.asyncWait]
  rw [hmem, List.mem_append, List.mem_singleton]
  tauto

theorem liveWait_expire (w : TimedSession) (n : Nat) :
    LiveWait { w with timer := w.timer.expire } n ↔ LiveWait w n := by
  unfold LiveWait
  dsimp only
  rw [WaitTimer.mem_ready_expire, WaitTimer.armed_expire]
  simp only [List.not_mem_nil, false_or, and_true]
  tauto

/-- A handler that was aborted has run. -/
theorem liveWait_aborted {w : TimedSession} {i m : Nat} (h : w.timer.ready[i]? = some (m, true)) (n : Nat) :
    LiveWait { w with timer := w.timer.take i } n ↔ LiveWait w n := by
  unfold LiveWait
  dsimp only
  rw [WaitTimer.armed_take, WaitTimer.mem_ready_take h]
  simp

theorem liveWait_timeout {w : TimedSession} {i m : Nat} {b : Bool} (h : w.timer.ready[i]? = some (m, b)) {n : Nat}
    (hn : LiveWait { w with timer := w.timer.take i } n) : LiveWait w n := by
  rcases hn with hn | hn | hn
  · exact .inl hn
  · exact .inr (.inl hn)
  · exact .inr (.inr ((WaitTimer.mem_ready_take h).mpr (.inr hn)))

theorem abortRead_not_pending (w : TimedSession) : w.abortRead.read ≠ .pending := by
  unfold abortRead
  dsimp only
  split
  · simp
  · assumption

section

variable {x : Externals} {server : HttpServer}

/-! ## No read waits for ever -/

/-- What is known of a connection between its handlers. -/
structure Guarded (w : TimedSession) : Prop where
  reads : w.session.phase = .reading ↔ w.read ≠ .none
  live : w.read = .pending → ∃ n, n + 1 = w.reads ∧ LiveWait w n

theorem guarded_goOn (w : TimedSession) (c : Session) (inStrand : Bool) : Guarded (w.goOn c inStrand) := by
  rcases goOn_cases w c inStrand with ⟨hc, heq⟩ | ⟨hc, heq⟩ <;> rw [heq]
  · exact ⟨⟨fun _ => by simp [readBytesWithTimeout], fun _ => hc⟩,
      fun _ => ⟨w.reads, rfl, liveWait_read _ inStrand⟩⟩
  · exact ⟨⟨fun h => absurd h hc, fun h => absurd rfl h⟩, fun h => by cases h⟩

theorem handleRead_goOn (x : Externals) (server : HttpServer) (w : TimedSession) (r : ReadResult) :
    ∃ (v : TimedSession) (c : Session), w.handleRead x server r = v.goOn c true ∧ v.reads = w.reads ∧ v.unarmed = w.unarmed ∧
      v.timer = (if r = .error true then w.timer else w.timer.cancel) := by
  cases r with
  | data bytes => exact ⟨_, _, rfl, rfl, rfl, rfl⟩
  | error aborted => cases aborted <;> exact ⟨_, _, rfl, rfl, rfl, rfl⟩

theorem abortRead_reads (w : TimedSession) : w.abortRead.read ≠ .none ↔ w.read ≠ .none := by
  unfold abortRead
  dsimp only
  split
  · rename_i h
    rw [h]
    simp
  · exact Iff.rfl

theorem Guarded.step {w w' : TimedSession} {e : TimedSession.Event} (h : Guarded w)
    (hstep : w.step x server e = some w') : Guarded w' := by
  have hnot : w.abortRead.read ≠ .pending := abortRead_not_pending w
  cases e with
  | complete r =>
    obtain ⟨⟨hpending, _⟩, hstep⟩ := Option.ite_none_right_eq_some.mp hstep
    obtain rfl := Option.some.inj hstep
    refine ⟨⟨fun _ => by simp, fun _ => h.reads.mpr ?_⟩, fun hp => by cases hp⟩
    rw [hpending]
    simp
  | handleRead =>
    dsimp only [TimedSession.step] at hstep
    split at hstep
    · rename_i r hr
      obtain rfl := Option.some.inj hstep
      obtain ⟨v, c, heq, _⟩ := handleRead_goOn x server w r
      rw [heq]
      exact guarded_goOn v c true
    · cases hstep
    · cases hstep
  | arm i =>
    dsimp only [TimedSession.step] at hstep
    split at hstep
    · rename_i n hn
      obtain rfl := Option.some.inj hstep
      refine ⟨h.reads, fun hp => ?_⟩
      obtain ⟨m, hm, hlive⟩ := h.live hp
      exact ⟨m, hm, (liveWait_arm hn m).mpr hlive⟩
    · cases hstep
  | expire =>
    obtain ⟨_, hstep⟩ := Option.ite_none_left_eq_some.mp hstep
    obtain rfl := Option.some.inj hstep
    refine ⟨h.reads, fun hp => ?_⟩
    obtain ⟨m, hm, hlive⟩ := h.live hp
    exact ⟨m, hm, (liveWait_expire w m).mpr hlive⟩
  | timeout i =>
    dsimp only [TimedSession.step] at hstep
    split at hstep
    · rename_i m aborted hm
      obtain rfl := Option.some.inj hstep
      cases aborted with
      | true =>
        refine ⟨h.reads, fun hp => ?_⟩
        obtain ⟨n, hn, hlive⟩ := h.live hp
        exact ⟨n, hn, (liveWait_aborted hm n).mpr hlive⟩
      | false =>
        exact ⟨h.reads.trans (abortRead_reads w).symm, fun hp => absurd hp hnot⟩
    · cases hstep
  | finish i j inStrand =>
    dsimp only [TimedSession.step] at hstep
    split at hstep
    · obtain rfl := Option.some.inj hstep
      exact guarded_goOn w _ inStrand
    all_goals cases hstep
  | close =>
    obtain rfl := Option.some.inj hstep
    exact ⟨h.reads.trans (abortRead_reads w).symm, fun hp => absurd hp hnot⟩

theorem guarded_of_run {i j : Nat} {es : List TimedSession.Event} {w : TimedSession}
    (h : exec (TimedSession.step x server) (.accepted x server i j) es = some w) : Guarded w :=
  exec_invariant (fun _ w => Guarded w) (guarded_goOn _ _ _) (fun _ _ _ _ _ hs hstep => hs.step hstep) h

/-- The event is one of the timer's own, or the late start of a wait. -/
def OfTimer : TimedSession.Event → Prop
  | .arm _ | .expire | .timeout _ => True
  | .complete _ | .handleRead | .finish _ _ _ | .close => False

/-- A wait that has not run can be run, and aborts a read that is still outstanding then. -/
theorem abort_of_live (x : Externals) (server : HttpServer) {w : TimedSession} {n : Nat} (h : LiveWait w n) :
    ∃ es w', (∀ e ∈ es, OfTimer e) ∧ exec (TimedSession.step x server) w es = some w' ∧
      w'.read = w.abortRead.read := by
  have hready : ∀ w : TimedSession, (n, false) ∈ w.timer.ready →
      ∃ es w', (∀ e ∈ es, OfTimer e) ∧ exec (TimedSession.step x server) w es = some w' ∧
        w'.read = w.abortRead.read := by
    intro w hmem
    obtain ⟨i, hi⟩ := List.mem_iff_getElem?.mp hmem
    refine ⟨[.timeout i], { w with timer := w.timer.take i }.abortRead, ?_, ?_, rfl⟩
    · intro e he
      obtain rfl := List.mem_singleton.mp he
      trivial
    · refine (Option.bind_fun_some _).trans ?_
      dsimp only [TimedSession.step]
      rw [hi]
      rfl
  have harmed : ∀ w : TimedSession, n ∈ w.timer.armed →
      ∃ es w', (∀ e ∈ es, OfTimer e) ∧ exec (TimedSession.step x server) w es = some w' ∧
        w'.read = w.abortRead.read := by
    intro w hmem
    obtain ⟨es, w', hes, hrun, hread⟩ := hready { w with timer := w.timer.expire }
      (WaitTimer.mem_ready_expire.mpr (.inr ⟨hmem, rfl⟩))
    refine ⟨.expire :: es, w', ?_, ?_, hread⟩
    · exact List.forall_mem_cons.mpr ⟨trivial, hes⟩
    · rw [exec, show w.step x server .expire = some { w with timer := w.timer.expire } from
        if_neg (List.ne_nil_of_mem hmem)]
      exact hrun
  rcases h with hmem | hmem | hmem
  · obtain ⟨i, hi⟩ := List.mem_iff_getElem?.mp hmem
    obtain ⟨es, w', hes, hrun, hread⟩ := harmed
      { w with timer := w.timer.asyncWait n, unarmed := w.unarmed.eraseIdx i }
      (List.mem_append_right _ (List.mem_singleton_self n))
    refine ⟨.arm i :: es, w', ?_, ?_, hread⟩
    · exact List.forall_mem_cons.mpr ⟨trivial, hes⟩
    · rw [exec]
      dsimp only [TimedSession.step]
      rw [hi]
      exact hrun
  · exact harmed w hmem
  · exact hready w hmem

/--
**No read waits for ever.** In every state that a connection comes to, a read that has not completed
has a wait of its own that has neither run nor been aborted; and the timer alone, with no help of the
client's, can bring it to its end.
-/
theorem reads_time_out (x : Externals) (server : HttpServer) (i j : Nat) (es : List TimedSession.Event)
    (w : TimedSession) (hrun : exec (TimedSession.step x server) (.accepted x server i j) es = some w)
    (hpending : w.read = .pending) :
    (∃ n, n + 1 = w.reads ∧ LiveWait w n) ∧
      ∃ fs w', (∀ e ∈ fs, OfTimer e) ∧ exec (TimedSession.step x server) w fs = some w' ∧
        w'.read = .completed (.error true) := by
  obtain ⟨n, hn, hlive⟩ := (guarded_of_run hrun).live hpending
  refine ⟨⟨n, hn, hlive⟩, ?_⟩
  obtain ⟨fs, w', hfs, hrun', hread⟩ := abort_of_live x server hlive
  refine ⟨fs, w', hfs, hrun', hread.trans ?_⟩
  exact if_pos hpending

/-- The first read has been handled before its wait is started: the wait is there beside the one for
the second read. -/
def lateWait : List TimedSession.Event := [.complete (.data (str "G")), .handleRead, .arm 0]

theorem reads_time_out_late : ∃ w, exec (TimedSession.step plainExternals {})
    (.accepted plainExternals {} 0 0) lateWait = some w ∧ w.reads = 2 ∧ w.timer.armed = [1, 0] ∧
    LiveWait w 1 ∧
    ∃ fs w', (∀ e ∈ fs, OfTimer e) ∧ exec (TimedSession.step plainExternals {}) w fs = some w' ∧
      w'.read = .completed (.error true) := by
  obtain ⟨w, hw, hreads, harmed, hpending⟩ : ∃ w, exec (TimedSession.step plainExternals {})
      (.accepted plainExternals {} 0 0) lateWait = some w ∧ w.reads = 2 ∧ w.timer.armed = [1, 0] ∧
      w.read = .pending := ⟨_, rfl, rfl, rfl, rfl⟩
  obtain ⟨⟨n, hn, hlive⟩, hend⟩ := reads_time_out plainExternals {} 0 0 lateWait w hw hpending
  obtain rfl : n = 1 := by omega
  exact ⟨w, hw, hreads, harmed, hlive, hend⟩

/-! ## The last read -/

/-- The connection is not read again. -/
structure NotReadAgain (n : Nat) (w : TimedSession) : Prop where
  reads : w.reads = n
  read : w.read = .none
  phase : w.session.phase ≠ .reading
  keepAlive : w.session.conn.getKeepAlive = false

theorem handleRequest_keepAlive (server : HttpServer) {conn : TcpConnection} (h : conn.getKeepAlive = false)
    (ec : ReadError) (m : HttpRequest) : (server.handleRequest conn ec m).1.getKeepAlive = false := by
  unfold HttpServer.handleRequest
  dsimp only
  split
  · rfl
  · split
    · split
      · rfl
      · exact h
    · split
      · exact h
      · split
        · exact h
        · split <;> exact h

theorem handleReadError_spec (x : Externals) (server : HttpServer) (c : Session) :
    (c.handleReadError x server).conn.getKeepAlive = false ∧
    (c.handleReadError x server).phase ≠ .reading := by
  have hfinished : ∀ (c : Session) ec, c.conn.getKeepAlive = false →
      (c.finishedReading server ec).conn.getKeepAlive = false ∧
        (c.finishedReading server ec).phase ≠ .reading := by
    intro c ec h
    refine ⟨handleRequest_keepAlive server h ec _, ?_⟩
    unfold Session.finishedReading
    dsimp only
    split <;> simp
  unfold Session.handleReadError
  dsimp only
  split
  · exact ⟨rfl, by simp⟩
  · exact hfinished _ _ rfl
  · exact hfinished _ _ rfl

theorem notReadAgain_error {w : TimedSession} (b : Bool) :
    NotReadAgain w.reads (w.handleRead x server (.error b)) := by
  obtain ⟨hkeep, hphase⟩ := handleReadError_spec x server w.session
  unfold handleRead
  dsimp only
  rcases goOn_cases { w with timer := if b then w.timer else w.timer.cancel }
    (w.session.handleReadError x server) true with ⟨hc, _⟩ | ⟨_, heq⟩
  · exact absurd hc hphase
  · rw [heq]
    exact ⟨rfl, rfl, hphase, hkeep⟩

theorem NotReadAgain.step {n : Nat} {w w' : TimedSession} {e : TimedSession.Event} (h : NotReadAgain n w)
    (hstep : w.step x server e = some w') : NotReadAgain n w' := by
  have habort : w.abortRead.read = .none := by
    unfold abortRead
    dsimp only
    rw [h.read]
    rfl
  cases e with
  | complete r =>
    obtain ⟨⟨hpending, _⟩, _⟩ := Option.ite_none_right_eq_some.mp hstep
    rw [h.read] at hpending
    cases hpending
  | handleRead =>
    dsimp only [TimedSession.step] at hstep
    rw [h.read] at hstep
    cases hstep
  | arm i =>
    dsimp only [TimedSession.step] at hstep
    split at hstep
    · obtain rfl := Option.some.inj hstep
      exact ⟨h.reads, h.read, h.phase, h.keepAlive⟩
    · cases hstep
  | expire =>
    obtain ⟨_, hstep⟩ := Option.ite_none_left_eq_some.mp hstep
    obtain rfl := Option.some.inj hstep
    exact ⟨h.reads, h.read, h.phase, h.keepAlive⟩
  | timeout i =>
    dsimp only [TimedSession.step] at hstep
    split at hstep
    · rename_i m aborted _
      obtain rfl := Option.some.inj hstep
      cases aborted with
      | true => exact ⟨h.reads, h.read, h.phase, h.keepAlive⟩
      | false => exact ⟨h.reads, habort, h.phase, h.keepAlive⟩
    · cases hstep
  | finish i j inStrand =>
    dsimp only [TimedSession.step] at hstep
    split at hstep
    · obtain rfl := Option.some.inj hstep
      have hclosed : w.session.finishConnection x server i j = { w.session with phase := .closed } := by
        unfold Session.finishConnection
        rw [h.keepAlive]
        simp
      rw [hclosed]
      exact ⟨h.reads, rfl, by simp [goOn], h.keepAlive⟩
    all_goals cases hstep
  | close =>
    obtain rfl := Option.some.inj hstep
    exact ⟨h.reads, habort, h.phase, h.keepAlive⟩

/--
**A read that fails is the last one.** When the handler of a read has run with an error, a timeout for
one, no other read of the connection is started, whatever becomes of the request.
-/
theorem failed_read_last (x : Externals) (server : HttpServer) (w w' : TimedSession) (b : Bool)
    (hfails : w.read = .completed (.error b)) (es : List TimedSession.Event)
    (hrun : exec (TimedSession.step x server) w (.handleRead :: es) = some w') :
    w'.reads = w.reads ∧ w'.read = .none ∧ w'.session.phase ≠ .reading := by
  obtain ⟨v, hv, hrest⟩ := Option.bind_eq_some_iff.mp hrun
  dsimp only [TimedSession.step] at hv
  rw [hfails] at hv
  obtain rfl := Option.some.inj hv
  have hend := exec_invariant (fun _ v => NotReadAgain w.reads v) (notReadAgain_error b)
    (fun _ _ _ _ _ hs hstep => hs.step hstep) hrest
  exact ⟨hend.reads, hend.read, hend.phase⟩

/-- A client has sent nothing, and its first read has timed out. -/
def silentClient : TimedSession where
  session := .accepted plainExternals {} 0 0
  read := .completed (.error true)
  reads := 1

theorem failed_read_last_silent : exec (TimedSession.step plainExternals {}) (.accepted plainExternals {} 0 0)
    [.arm 0, .expire, .timeout 0] = some silentClient ∧
    ∃ w, exec (TimedSession.step plainExternals {}) silentClient [.handleRead, .finish 0 0 true] = some w ∧
      w.reads = 1 ∧ w.read = .none ∧ w.session.phase ≠ .reading := by
  obtain ⟨w, hw⟩ : ∃ w, exec (TimedSession.step plainExternals {}) silentClient
      [.handleRead, .finish 0 0 true] = some w := ⟨_, rfl⟩
  exact ⟨rfl, w, hw, failed_read_last plainExternals {} silentClient w true rfl [.finish 0 0 true] hw⟩

/-! ## Whose timeout it is -/

/-- Every wait that is still to run is for the read that the connection has outstanding. -/
def OwnTimeouts (w : TimedSession) : Prop := ∀ n, LiveWait w n → OutstandingRead w n

/-- The handler of the read is in time: the wait for the read is armed still, and will be cancelled. A
handler that does not cancel it finds it gone. -/
def InTime (w : TimedSession) (e : TimedSession.Event) : Prop :=
  ∀ r, e = .handleRead → w.read = .completed r →
    w.unarmed = [] ∧ (∀ n, (n, false) ∉ w.timer.ready) ∧ (r = .error true → w.timer.armed = [])

theorem ownTimeouts_goOn {w : TimedSession} (h : ∀ n, ¬ LiveWait w n) (c : Session) (inStrand : Bool) :
    OwnTimeouts (w.goOn c inStrand) := by
  intro n hn
  rcases goOn_cases w c inStrand with ⟨_, heq⟩ | ⟨_, heq⟩ <;> rw [heq] at hn ⊢
  · refine ⟨?_, by simp [readBytesWithTimeout]⟩
    -- the only wait is the new one
    have hready : ∀ b, (n, false) ∈ (w.timer.setTo b).ready → LiveWait w n := by
      intro b hmem
      rcases WaitTimer.mem_ready_cancel.mp hmem with hmem | ⟨_, hb⟩
      · exact .inr (.inr hmem)
      · cases hb
    have hsame : n = w.reads := by
      cases inStrand with
      | true =>
        rcases hn with hn | hn | hn
        · exact absurd (.inl hn) (h n)
        · exact List.mem_singleton.mp hn
        · exact absurd (hready _ hn) (h n)
      | false =>
        rcases hn with hn | hn | hn
        · rcases List.mem_append.mp hn with hn | hn
          · exact absurd (.inl hn) (h n)
          · exact List.mem_singleton.mp hn
        · cases hn
        · exact absurd (hready 0 hn) (h n)
    rw [hsame]
    rfl
  · exact absurd hn (h n)

theorem OwnTimeouts.step {w w' : TimedSession} {e : TimedSession.Event} (hguarded : Guarded w)
    (h : OwnTimeouts w) (hin : InTime w e) (hstep : w.step x server e = some w') : OwnTimeouts w' := by
  have habort : ∀ n, OutstandingRead w n → OutstandingRead w.abortRead n := fun n hn =>
    ⟨hn.1, (abortRead_reads w).mpr hn.2⟩
  cases e with
  | complete r =>
    obtain ⟨_, hstep⟩ := Option.ite_none_right_eq_some.mp hstep
    obtain rfl := Option.some.inj hstep
    exact fun n hn => ⟨(h n hn).1, by simp⟩
  | handleRead =>
    dsimp only [TimedSession.step] at hstep
    split at hstep
    · rename_i r hr
      obtain ⟨hunarmed, hready, harmed⟩ := hin r rfl hr
      obtain rfl := Option.some.inj hstep
      obtain ⟨v, c, heq, _, hv, htimer⟩ := handleRead_goOn x server w r
      rw [heq]
      refine ownTimeouts_goOn (fun n hn => ?_) c true
      -- the waits that the handler of the read leaves
      unfold LiveWait at hn
      rw [hv, hunarmed, htimer] at hn
      split at hn
      · rename_i haborted
        rw [harmed haborted] at hn
        rcases hn with hn | hn | hn
        · cases hn
        · cases hn
        · exact hready n hn
      · rcases hn with hn | hn | hn
        · cases hn
        · cases hn
        · rcases WaitTimer.mem_ready_cancel.mp hn with hn | ⟨_, hb⟩
          · exact hready n hn
          · cases hb
    · cases hstep
    · cases hstep
  | arm i =>
    dsimp only [TimedSession.step] at hstep
    split at hstep
    · rename_i m hm
      obtain rfl := Option.some.inj hstep
      exact fun n hn => h n ((liveWait_arm hm n).mp hn)
    · cases hstep
  | expire =>
    obtain ⟨_, hstep⟩ := Option.ite_none_left_eq_some.mp hstep
    obtain rfl := Option.some.inj hstep
    exact fun n hn => h n ((liveWait_expire w n).mp hn)
  | timeout i =>
    dsimp only [TimedSession.step] at hstep
    split at hstep
    · rename_i m aborted hm
      obtain rfl := Option.some.inj hstep
      cases aborted with
      | true => exact fun n hn => h n (liveWait_timeout hm hn)
      | false => exact fun n hn => habort n (h n (liveWait_timeout hm hn))
    · cases hstep
  | finish i j inStrand =>
    dsimp only [TimedSession.step] at hstep
    split at hstep
    · rename_i d hd
      obtain rfl := Option.some.inj hstep
      refine ownTimeouts_goOn (fun n hn => ?_) _ inStrand
      have hreading := hguarded.reads.mpr (h n hn).2
      rw [hd] at hreading
      cases hreading
    all_goals cases hstep
  | close =>
    obtain rfl := Option.some.inj hstep
    exact fun n hn => habort n (h n hn)

theorem goOn_reads_lt {w : TimedSession} {c : Session} {inStrand : Bool} {n : Nat}
    (h : OutstandingRead (w.goOn c inStrand) n) : c.phase = .reading ∧ n = w.reads := by
  rcases goOn_cases w c inStrand with ⟨hc, heq⟩ | ⟨_, heq⟩ <;> rw [heq] at h
  · exact ⟨hc, Nat.succ.inj h.1⟩
  · exact absurd rfl h.2

/-- A wait outlives the handler of the read, unless it was armed and is cancelled now. -/
theorem liveWait_goOn {w : TimedSession} {c : Session} {n : Nat} (hn : n ∈ w.unarmed ∨ (n, false) ∈ w.timer.ready) :
    LiveWait (w.goOn c true) n := by
  rcases goOn_cases w c true with ⟨_, heq⟩ | ⟨_, heq⟩ <;> rw [heq]
  · rcases hn with hn | hn
    · exact .inl hn
    · exact .inr (.inr (WaitTimer.mem_ready_cancel.mpr (.inl hn)))
  · rcases hn with hn | hn
    · exact .inl hn
    · exact .inr (.inr hn)

/-- The handler of a read that is not in time leaves a wait that is not for what comes next. -/
theorem late_handler {w w' : TimedSession} (h : OwnTimeouts w) (hlate : ¬ InTime w .handleRead)
    (hstep : w.step x server .handleRead = some w') : ¬ OwnTimeouts w' := by
  intro hown
  refine hlate fun r _ hr => ?_
  dsimp only [TimedSession.step] at hstep
  rw [hr] at hstep
  obtain rfl := Option.some.inj hstep
  obtain ⟨v, c, heq, hreads, hunarmed, htimer⟩ := handleRead_goOn x server w r
  rw [heq] at hown
  -- whatever is left is for the read before
  have hleft : ∀ n, LiveWait w n → ¬ LiveWait (v.goOn c true) n := by
    intro n hn hleft
    have hbefore := (h n hn).1
    obtain ⟨_, hafter⟩ := goOn_reads_lt (hown n hleft)
    omega
  have hready : ∀ n, (n, false) ∈ w.timer.ready → (n, false) ∈ v.timer.ready := by
    intro n hn
    rw [htimer]
    split
    · exact hn
    · exact WaitTimer.mem_ready_cancel.mpr (.inl hn)
  refine ⟨?_, fun n hn => hleft n (.inr (.inr hn)) (liveWait_goOn (.inr (hready n hn))), fun herror => ?_⟩
  · rw [List.eq_nil_iff_forall_not_mem]
    exact fun n hn => hleft n (.inl hn) (liveWait_goOn (.inl (hunarmed ▸ hn)))
  · -- the connection does not read again, and its timer is as it was
    subst herror
    have hend : w.handleRead x server (.error true) =
        { w with session := w.session.handleReadError x server, read := .none } := by
      rcases goOn_cases w (w.session.handleReadError x server) true with ⟨hc, _⟩ | ⟨_, heq⟩
      · exact absurd hc (handleReadError_spec x server w.session).2
      · exact heq
    rw [← heq, hend] at hown
    rw [List.eq_nil_iff_forall_not_mem]
    exact fun n hn => (hown n (.inr (.inl hn))).2 rfl

/--
**When all live waits are for the outstanding read**, so that a timeout can only strike its own: in
the runs in which the handler of each read finds its wait armed, so that it cancels it, or gone; neither
run out and ready, nor about to be started. In other runs a wait is left behind, which may still be
cancelled before it strikes.
-/
theorem own_timeouts_iff (x : Externals) (server : HttpServer) (i j : Nat) (es : List TimedSession.Event) :
    (∀ front back w, es = front ++ back →
      exec (TimedSession.step x server) (.accepted x server i j) front = some w → OwnTimeouts w) ↔
      Throughout (TimedSession.step x server) InTime (.accepted x server i j) es := by
  have hstart : OwnTimeouts (.accepted x server i j) := ownTimeouts_goOn (fun n hn => by
    rcases hn with hn | hn | hn <;> cases hn) _ false
  constructor
  · intro h front e back w hes hw
    by_contra hlate
    obtain rfl : e = .handleRead := by
      by_contra he
      exact hlate fun r hr => absurd hr he
    have hown := h front (.handleRead :: back) w hes hw
    rcases hstep : w.step x server .handleRead with _ | w'
    · -- there is no handler to run
      refine hlate fun r _ hr => ?_
      dsimp only [TimedSession.step] at hstep
      rw [hr] at hstep
      cases hstep
    · refine late_handler hown hlate hstep (h (front ++ [.handleRead]) back w' ?_ (exec_snoc.mpr ⟨w, hw, hstep⟩))
      rw [hes, List.append_assoc]
      rfl
  · intro h front back w hes hw
    exact (exec_throughout (P := InTime) (fun w => Guarded w ∧ OwnTimeouts w)
      ⟨guarded_goOn _ _ _, hstart⟩ (fun _ _ _ hs hin hstep => ⟨hs.1.step hstep, hs.2.step hs.1 hin hstep⟩) hw
      (throughout_append (hes ▸ h))).2

/-- The timer has run out before the first byte is handled; it is the next read that is aborted. -/
example : ((exec (TimedSession.step plainExternals {}) (.accepted plainExternals {} 0 0)
    [.arm 0, .complete (.data (str "G")), .expire, .handleRead, .timeout 0]).map fun w => (w.reads, w.read)) =
    some (2, .completed (.error true)) := rfl

end

end Pion.Proof
