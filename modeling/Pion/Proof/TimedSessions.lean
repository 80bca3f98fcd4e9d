import Mathlib.Logic.Relation
import Pion.Proof.ReadTimeouts

/-!
# What timeouts make of a connection

A session is given the results of its reads, whenever they come. With timeouts, a read is one that a
timer may cancel; a handler runs some time after its read has completed; and waits are started late,
expire and are cancelled. Neither takes a session anywhere that it could not have come without.
-/

namespace Pion.Proof

open Pion Lib TimedSession

/-- What happens to a session that has no timer: its completion handlers run, and its socket is closed. -/
inductive UntimedStep (x : Externals) (server : HttpServer) : Session → Session → Prop where
  | handler {c c' : Session} (h : Session.Step x server c c') : UntimedStep x server c c'
  | close (c : Session) : UntimedStep x server c { c with conn := { c.conn with isOpen := false } }

variable {x : Externals} {server : HttpServer}

theorem goOn_session (w : TimedSession) (c : Session) (inStrand : Bool) : (w.goOn c inStrand).session = c := by
  rcases goOn_cases w c inStrand with ⟨_, heq⟩ | ⟨_, heq⟩ <;> rw [heq]
  rfl

theorem goOn_read (w : TimedSession) (c : Session) (inStrand : Bool) (h : c.phase = .reading) :
    (w.goOn c inStrand).read = .pending := by
  rcases goOn_cases w c inStrand with ⟨_, heq⟩ | ⟨hne, _⟩
  · rw [heq]
    rfl
  · exact absurd h hne

/-! ## Without the timer -/

/-- A read has a result that it can have. -/
def CanResult (w : TimedSession) : Prop := ∀ r, w.read = .completed r → r.possible = true

theorem canResult_goOn (w : TimedSession) (c : Session) (inStrand : Bool) : CanResult (w.goOn c inStrand) := by
  intro r hr
  rcases goOn_cases w c inStrand with ⟨_, heq⟩ | ⟨_, heq⟩ <;> rw [heq] at hr <;> cases hr

theorem canResult_abortRead {w : TimedSession} (h : CanResult w) : CanResult w.abortRead := by
  intro r hr
  unfold abortRead at hr
  dsimp only at hr
  split at hr
  · obtain rfl := Read.completed.inj hr
    rfl
  · exact h r hr

/-- Each event is a step of the session, or none. -/
theorem step_untimed {w w' : TimedSession} {e : TimedSession.Event} (hguarded : Guarded w) (hresult : CanResult w)
    (hstep : w.step x server e = some w') :
    CanResult w' ∧ Relation.ReflTransGen (UntimedStep x server) w.session w'.session := by
  cases e with
  | complete r =>
    obtain ⟨⟨_, hpossible⟩, hstep⟩ := Option.ite_none_right_eq_some.mp hstep
    obtain rfl := Option.some.inj hstep
    refine ⟨fun r' hr => ?_, .refl⟩
    obtain rfl := Read.completed.inj hr
    exact hpossible
  | handleRead =>
    dsimp only [TimedSession.step] at hstep
    split at hstep
    · rename_i r hr
      obtain rfl := Option.some.inj hstep
      have hreading : w.session.phase = .reading := hguarded.reads.mpr (by simp [hr])
      cases r with
      | data bytes =>
        have hpossible := hresult _ hr
        simp only [ReadResult.possible, Bool.and_eq_true, decide_eq_true_eq] at hpossible
        refine ⟨canResult_goOn _ _ _, .single ?_⟩
        show UntimedStep x server _ (TimedSession.goOn _ _ true).session
        rw [goOn_session]
        exact .handler (.read _ bytes hreading hpossible.1 hpossible.2)
      | error aborted =>
        refine ⟨canResult_goOn _ _ _, .single ?_⟩
        show UntimedStep x server _ (TimedSession.goOn _ _ true).session
        rw [goOn_session]
        exact .handler (.readError _ hreading)
    · cases hstep
    · cases hstep
  | arm i =>
    dsimp only [TimedSession.step] at hstep
    split at hstep
    · obtain rfl := Option.some.inj hstep
      exact ⟨hresult, .refl⟩
    · cases hstep
  | expire =>
    obtain ⟨_, hstep⟩ := Option.ite_none_left_eq_some.mp hstep
    obtain rfl := Option.some.inj hstep
    exact ⟨hresult, .refl⟩
  | timeout i =>
    dsimp only [TimedSession.step] at hstep
    split at hstep
    · rename_i m aborted hm
      obtain rfl := Option.some.inj hstep
      cases aborted with
      | true => exact ⟨hresult, .refl⟩
      | false => exact ⟨canResult_abortRead hresult, .refl⟩
    · cases hstep
  | finish i j inStrand =>
    dsimp only [TimedSession.step] at hstep
    split at hstep
    · rename_i d hd
      obtain rfl := Option.some.inj hstep
      refine ⟨canResult_goOn _ _ _, .single ?_⟩
      rw [goOn_session]
      exact .handler (.finish _ d i j hd)
    all_goals cases hstep
  | close =>
    obtain rfl := Option.some.inj hstep
    exact ⟨canResult_abortRead hresult, .single (.close _)⟩

/-! ## With a timer -/

/-- The timed connection has come to this session, and has this result for its read if there is one. -/
def ComesTo (x : Externals) (server : HttpServer) (i j : Nat) (c : Session) (r : ReadResult) : Prop :=
  ∃ es w, exec (TimedSession.step x server) (.accepted x server i j) es = some w ∧ w.session = c ∧
    (c.phase = .reading → w.read = .completed r)

/-- A read that has been started has the result that it is wanted to have. -/
theorem comesTo_goOn {i j : Nat} {es : List TimedSession.Event} {w : TimedSession} {c : Session} {inStrand : Bool}
    (h : exec (TimedSession.step x server) (.accepted x server i j) es = some (w.goOn c inStrand)) {r : ReadResult}
    (hr : r.possible = true) : ComesTo x server i j c r := by
  by_cases hreading : c.phase = .reading
  · have hpending := goOn_read w c inStrand hreading
    have hstep : (w.goOn c inStrand).step x server (.complete r) =
        some { w.goOn c inStrand with read := .completed r } := if_pos ⟨hpending, hr⟩
    exact ⟨es ++ [.complete r], { w.goOn c inStrand with read := .completed r }, exec_snoc.mpr ⟨_, h, hstep⟩,
      goOn_session w c inStrand, fun _ => rfl⟩
  · exact ⟨es, _, h, goOn_session w c inStrand, fun hn => absurd hn hreading⟩

/-- The handler of a read that has the result runs. -/
theorem exec_handleRead {i j : Nat} {es : List TimedSession.Event} {w : TimedSession} {r : ReadResult}
    (h : exec (TimedSession.step x server) (.accepted x server i j) es = some w) (hread : w.read = .completed r) :
    exec (TimedSession.step x server) (.accepted x server i j) (es ++ [.handleRead]) =
      some (w.handleRead x server r) := by
  refine exec_snoc.mpr ⟨w, h, ?_⟩
  dsimp only [TimedSession.step]
  rw [hread]

theorem comesTo_untimed {i j : Nat} {c : Session}
    (h : Relation.ReflTransGen (UntimedStep x server) (.accepted x server i j) c) :
    ∀ r : ReadResult, r.possible = true → ComesTo x server i j c r := by
  induction h with
  | refl =>
    intro r hr
    have hrun : exec (TimedSession.step x server) (.accepted x server i j) [] =
        some (TimedSession.goOn { session := .initial } (.accepted x server i j) false) := rfl
    exact comesTo_goOn hrun hr
  | @tail c c' _ hstep ih =>
    intro r hr
    cases hstep with
    | close =>
      obtain ⟨es, w, hrun, rfl, hread⟩ := ih r hr
      refine ⟨es ++ [.close], _, exec_snoc.mpr ⟨w, hrun, rfl⟩, rfl, fun hreading => ?_⟩
      -- a read that has completed is not aborted
      have hdone := hread hreading
      show (if w.read = .pending then _ else w.read) = _
      rw [if_neg (by simp [hdone]), hdone]
    | handler hstep =>
      -- the read before is wanted to have the result that this step handles
      cases hstep with
      | read data hreading hne hle =>
        have hpossible : (ReadResult.data data).possible = true := by
          simp [ReadResult.possible, hne, hle]
        obtain ⟨es, w, hrun, rfl, hread⟩ := ih (.data data) hpossible
        exact comesTo_goOn (exec_handleRead hrun (hread hreading)) hr
      | readError hreading =>
        obtain ⟨es, w, hrun, rfl, hread⟩ := ih (.error true) rfl
        exact comesTo_goOn (exec_handleRead hrun (hread hreading)) hr
      | finish d i' j' hd =>
        obtain ⟨es, w, hrun, rfl, _⟩ := ih r hr
        have hstep : w.step x server (.finish i' j' true) =
            some (w.goOn (w.session.finishConnection x server i' j') true) := by
          dsimp only [TimedSession.step]
          rw [hd]
        exact comesTo_goOn (exec_snoc.mpr ⟨w, hrun, hstep⟩) hr

/-- **Timeouts neither add nor take away a state of a connection**: what a session comes to with them
is what it comes to without. -/
theorem timed_sessions_iff (x : Externals) (server : HttpServer) (i j : Nat) (c : Session) :
    (∃ es w, exec (TimedSession.step x server) (.accepted x server i j) es = some w ∧ w.session = c) ↔
      Relation.ReflTransGen (UntimedStep x server) (.accepted x server i j) c := by
  constructor
  · rintro ⟨es, w, hrun, rfl⟩
    have hstart : CanResult (.accepted x server i j) := canResult_goOn _ _ _
    have hend : (Guarded w ∧ CanResult w) ∧
        Relation.ReflTransGen (UntimedStep x server) (.accepted x server i j) w.session := by
      refine exec_invariant (fun _ u => (Guarded u ∧ CanResult u) ∧
        Relation.ReflTransGen (UntimedStep x server) (.accepted x server i j) u.session)
        ⟨⟨guarded_goOn _ _ _, hstart⟩, ?_⟩ ?_ hrun
      · show Relation.ReflTransGen _ _ (TimedSession.goOn _ _ false).session
        rw [goOn_session]
      · rintro _ u e u' _ ⟨⟨hguarded, hresult⟩, hsofar⟩ hstep
        obtain ⟨hresult', hmore⟩ := step_untimed hguarded hresult hstep
        exact ⟨⟨hguarded.step hstep, hresult'⟩, hsofar.trans hmore⟩
    exact hend.2
  · intro h
    obtain ⟨es, w, hrun, hc, _⟩ := comesTo_untimed h (.error true) rfl
    exact ⟨es, w, hrun, hc⟩

end Pion.Proof
