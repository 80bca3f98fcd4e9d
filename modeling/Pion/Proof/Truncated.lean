import Pion.Lib.Machine
import Pion.Proof.Endings
import Pion.TcpServer

/-!
# Requests that are cut off

`handle_read_error` has a way to hand the request to the application after all: if the message is
content of unknown length, which ends with the connection. No reader of a server is ever in that
state (`run_midway`). So a read that fails ends the request without any handler, and the
connection leaves the pool (`truncated_closed`).
-/

namespace Pion.Proof

open Pion Lib TcpServer

variable {x : Externals} {server : HttpServer} {atOnce : AtOnce}

/-- The reader is inside the head of a request, or inside a body that a payload handler takes. -/
def Midway (x : Externals) (p : HttpParser) (m : HttpRequest) : Prop :=
  (∃ i j bytes, InHead x i j bytes p m) ∨ ∃ method, InBody method p m

theorem Midway.state {p : HttpParser} {m : HttpRequest} (h : Midway x p m) :
    p.messageParseState ≠ .contentNoLength := by
  rcases h with ⟨i, j, bytes, h⟩ | ⟨method, h⟩
  · rcases h.state with hst | hst <;> rw [hst] <;> exact fun hn => by cases hn
  · rcases h.state with hst | hst <;> rw [hst] <;> exact fun hn => by cases hn

theorem Midway.parse {p : HttpParser} {m : HttpRequest} (h : Midway x p m) {buf : Bytes}
    (hrc : (parse x server.handleRequestAfterHeadersParsed p m none buf).rc = .ok .indeterminate) :
    Midway x (parse x server.handleRequestAfterHeadersParsed p m none buf).parser
      (parse x server.handleRequestAfterHeadersParsed p m none buf).msg := by
  rcases h with ⟨i, j, bytes, h⟩ | ⟨method, h⟩
  · cases h.fate server buf with
    | inHead _ h => exact Or.inl ⟨i, j, _, h⟩
    | badHead _ hrc' _ => cases hrc.symm.trans hrc'
    | unframed _ _ hrc' _ => cases hrc.symm.trans hrc'
    | unknown _ _ _ hrc' => cases hrc.symm.trans hrc'
    | known _ _ _ _ hrc' hwaits =>
      have hb := Except.ok.inj (hrc'.symm.trans hrc)
      exact Or.inr ⟨_, hwaits hb⟩
  · exact Or.inr ⟨method, (parse_body x _ h buf).waits hrc⟩

/-- A session whose reader, if it is at work, is midway. -/
def ReadsMidway (x : Externals) (c : Session) : Prop :=
  c.phase = .reading → Midway x c.reader.parser c.reader.request

theorem readsMidway_consumeBytes {c : Session} (h : Midway x c.reader.parser c.reader.request) :
    ReadsMidway x (c.consumeBytes x server) := by
  intro hphase
  have hrc := (afterParse_reading _ _ _).mp hphase
  unfold Session.consumeBytes
  rw [afterParse_waits hrc]
  exact h.parse hrc

theorem readsMidway_handleConnection (server : HttpServer) (c : Session) (i j : Nat) :
    ReadsMidway x (c.handleConnection x server i j) := by
  have hnew : Midway x (HttpRequestReader.new i j).parser HttpRequest.fresh :=
    Or.inl ⟨i, j, [], inHead_new x i j⟩
  unfold Session.handleConnection Session.receive
  split
  · exact readsMidway_consumeBytes hnew
  · exact fun _ => hnew

/-- A read that fails, midway through a request. -/
theorem handleReadError_midway (server : HttpServer) {c : Session}
    (h : Midway x c.reader.parser c.reader.request) :
    (c.handleReadError x server).phase = .handling .finish ∧
      (c.handleReadError x server).conn.currentLifecycle = .close := by
  have hcut : c.reader.checkPrematureEof x = (c.reader, .ok true) := if_pos h.state
  have heq : c.handleReadError x server =
      Session.finishedReading server { c with conn := c.conn.setLifecycle .close } .socket := by
    unfold Session.handleReadError
    dsimp only
    rw [hcut]
  have hrequest : server.handleRequest (c.conn.setLifecycle .close) .socket c.reader.request =
      ((c.conn.setLifecycle .close).setLifecycle .close, .ok .finish) := if_pos (Or.inl fun hn => by cases hn)
  rw [heq]
  unfold Session.finishedReading
  dsimp only
  rw [hrequest]
  exact ⟨rfl, rfl⟩

/-! ## Runs of the server -/

/-- Changing one session, or what does not concern the readers, keeps the others midway. -/
theorem readsMidway_setSession {w : TcpServer} (h : ∀ n, ReadsMidway x (w.sessions n)) {c : Session}
    (hc : ReadsMidway x c) (k n : Nat) : ReadsMidway x ((w.setSession k c).sessions n) := by
  unfold TcpServer.setSession
  dsimp only
  split
  · exact hc
  · exact h n

theorem readsMidway_finishConnection {w : TcpServer} (h : ∀ n, ReadsMidway x (w.sessions n))
    (k i j n : Nat) :
    ReadsMidway x ((w.finishConnection x atOnce k i j).sessions n) := by
  have hnext := readsMidway_setSession (w := w.lock) h
    (readsMidway_handleConnection (x := x) w.http (w.sessions k) i j) k n
  unfold TcpServer.finishConnection
  dsimp only
  split
  · split
    · split
      · exact hnext
      · exact hnext
    · exact hnext
    · exact hnext
    · exact hnext
  · exact readsMidway_setSession (w := { w.lock with connPool := w.lock.connPool.filter (· ≠ k) }) h
      (fun hn => by cases hn) k n

theorem step_midway {w w' : TcpServer} {e : Event} (hstep : step x atOnce w e = some w')
    (h : ∀ n, ReadsMidway x (w.sessions n)) : ∀ n, ReadsMidway x (w'.sessions n) := by
  intro n
  unfold TcpServer.step at hstep
  cases e with
  | accept k i j =>
    dsimp only at hstep
    split at hstep
    · cases hstep
      exact readsMidway_setSession (w := { w.lock with connPool := k :: w.connPool }.unlock) h
        (readsMidway_handleConnection w.http .initial i j) k n
    · cases hstep
  | read k data =>
    dsimp only at hstep
    split at hstep
    · rename_i hread
      cases hstep
      exact readsMidway_setSession h
        (readsMidway_consumeBytes (c := arrived (w.sessions k) data) (h k hread.1)) k n
    · cases hstep
  | readError k =>
    dsimp only at hstep
    split at hstep
    · rename_i hread
      cases hstep
      refine readsMidway_setSession h (fun hn => ?_) k n
      cases (handleReadError_midway _ (h k hread)).1.symm.trans hn
    · cases hstep
  | finish k i j =>
    dsimp only at hstep
    split at hstep
    · split at hstep
      · cases hstep
        exact readsMidway_finishConnection h k i j n
      · cases hstep
    all_goals cases hstep
  | close k =>
    cases hstep
    refine readsMidway_setSession h ?_ k n
    exact h k
  | stop waitUntilFinished =>
    dsimp only at hstep
    split at hstep
    · cases hstep
      unfold TcpServer.stop
      dsimp only
      cases waitUntilFinished with
      | true => exact h n
      | false =>
        show ReadsMidway x (if n ∈ w.connPool then _ else w.sessions n)
        split
        · exact h n
        · exact h n
    · cases hstep

/-- **Every reader at work is midway**, in every run of the server. -/
theorem run_midway {http : HttpServer} {es : List Event} {w : TcpServer}
    (hrun : exec (step x atOnce) (initial http) es = some w) (n : Nat) :
    ReadsMidway x (w.sessions n) :=
  exec_invariant (fun _ w => ∀ n, ReadsMidway x (w.sessions n)) (fun _ hn => by cases hn)
    (fun _ _ _ _ _ ih hstep => step_midway hstep ih) hrun n

/-- `finish()` on a connection that is marked for closing. -/
theorem finish_closes {w : TcpServer} {k : Nat} {d : Dispatch}
    (hphase : (w.sessions k).phase = .handling d)
    (hclose : (w.sessions k).conn.currentLifecycle = .close) (i j : Nat) :
    (w.mutex = .free → ∃ w', step x atOnce w (.finish k i j) = some w') ∧
      ∀ w', step x atOnce w (.finish k i j) = some w' → (w'.sessions k).phase = .closed ∧
        k ∉ w'.connPool := by
  have hkeep : ¬ (w.http.listening = true ∧ (w.sessions k).conn.getKeepAlive = true) := by
    rintro ⟨_, hn⟩
    unfold TcpConnection.getKeepAlive at hn
    rw [hclose] at hn
    cases hn
  have hfinish : w.finishConnection x atOnce k i j = ({ w.lock with
      connPool := w.lock.connPool.filter (· ≠ k) }.setSession k { w.sessions k with phase := .closed }).unlock :=
    if_neg hkeep
  have hstep : step x atOnce w (.finish k i j) =
      if w.mutex = .free then some (w.finishConnection x atOnce k i j) else none := by
    unfold TcpServer.step
    dsimp only
    rw [hphase]
  rw [hstep]
  refine ⟨fun hfree => ⟨_, if_pos hfree⟩, ?_⟩
  intro w' hw'
  split at hw'
  · cases hw'
    rw [hfinish]
    refine ⟨congrArg Session.phase (if_pos rfl), ?_⟩
    show k ∉ w.connPool.filter (· ≠ k)
    simp
  · cases hw'

/-- **A request that is cut off is never dispatched.** When a read fails, whatever has been read
before, `handle_request` goes to `finish()` with the connection marked for closing; and that takes
the connection out of the pool, as soon as the mutex can be had. -/
theorem truncated_closed (x : Externals) (atOnce : AtOnce) (http : HttpServer) (es : List Event)
    (w : TcpServer)
    (hrun : exec (step x atOnce) (initial http) es = some w) (k : Nat)
    (hphase : (w.sessions k).phase = .reading) :
    (w.sessions k).reader.parser.messageParseState ≠ .contentNoLength ∧
      ∃ w₁, step x atOnce w (.readError k) = some w₁ ∧ (w₁.sessions k).phase = .handling .finish ∧
        (w₁.sessions k).conn.currentLifecycle = .close ∧
        ∀ i j, (w.mutex = .free → ∃ w₂, step x atOnce w₁ (.finish k i j) = some w₂) ∧
          ∀ w₂, step x atOnce w₁ (.finish k i j) = some w₂ →
            (w₂.sessions k).phase = .closed ∧ k ∉ w₂.connPool := by
  have hmidway := run_midway hrun k hphase
  obtain ⟨hfinish, hclose⟩ := handleReadError_midway w.http hmidway
  have hsession : ((w.setSession k ((w.sessions k).handleReadError x w.http)).sessions k) =
      (w.sessions k).handleReadError x w.http := if_pos rfl
  refine ⟨hmidway.state, _, if_pos hphase, ?_, ?_, ?_⟩
  · rw [hsession, hfinish]
  · rw [hsession, hclose]
  · intro i j
    exact finish_closes (w := w.setSession k ((w.sessions k).handleReadError x w.http)) (d := .finish)
      (by rw [hsession, hfinish]) (by rw [hsession, hclose]) i j

/-- A connection that is lost inside the body of an upload. -/
theorem truncated_closed_upload :
    ∃ w, exec (step plainExternals fun _ => true) (initial uploadServer) [.accept 1 0 0, .read 1 (sizedHead ++ str "a")] =
        some w ∧ w.mutex = .free ∧
          ∃ w₁ w₂, step plainExternals (fun _ => true) w (.readError 1) = some w₁ ∧
          step plainExternals (fun _ => true) w₁ (.finish 1 0 0) = some w₂ ∧ 1 ∉ w₂.connPool := by
  obtain ⟨w, hw⟩ := Option.isSome_iff_exists.mp (show (exec (step plainExternals fun _ => true) (initial uploadServer)
    [.accept 1 0 0, .read 1 (sizedHead ++ str "a")]).isSome = true by decide +kernel)
  have hlook : (exec (step plainExternals fun _ => true) (initial uploadServer)
      [.accept 1 0 0, .read 1 (sizedHead ++ str "a")]).map (fun w => (w.mutex, (w.sessions 1).phase)) =
        some (.free, .reading) := by decide +kernel
  rw [hw] at hlook
  obtain ⟨hfree, hphase⟩ := Prod.mk.inj (Option.some.inj hlook)
  obtain ⟨_, w₁, hw₁, _, _, hfinish⟩ :=
    truncated_closed plainExternals (fun _ => true) uploadServer _ w hw 1 hphase
  obtain ⟨w₂, hw₂⟩ := (hfinish 0 0).1 hfree
  exact ⟨w, hw, hfree, w₁, w₂, hw₁, hw₂, ((hfinish 0 0).2 w₂ hw₂).2⟩

end Pion.Proof
