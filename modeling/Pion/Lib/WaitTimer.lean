import Mathlib.Data.List.Perm.Basic

/-!
# Timers that are waited on

Waits are started on a timer. When it expires, the handlers of all of them are ready to run. When it
is cancelled, they are ready as well, but are told that they were aborted; and to set a timer to
another time is to cancel it. A handler that is ready is not taken back by any of these.
-/

namespace Pion.Lib

structure WaitTimer (α : Type) where
  /-- The waits that neither have expired nor were cancelled. -/
  armed : List α := []
  /-- The waits whose handlers are ready, and whether they were aborted. -/
  ready : List (α × Bool) := []
  deriving DecidableEq

namespace WaitTimer

variable {α : Type}

def cancel (t : WaitTimer α) : WaitTimer α where
  armed := []
  ready := t.ready ++ t.armed.map fun a => (a, true)

def expire (t : WaitTimer α) : WaitTimer α where
  armed := []
  ready := t.ready ++ t.armed.map fun a => (a, false)

def asyncWait (t : WaitTimer α) (a : α) : WaitTimer α := { t with armed := t.armed ++ [a] }

/-- The timer is set to another time, and waited on. -/
def setTo (t : WaitTimer α) (a : α) : WaitTimer α := t.cancel.asyncWait a

/-- One of the handlers is taken to be run. -/
def take (t : WaitTimer α) (i : Nat) : WaitTimer α := { t with ready := t.ready.eraseIdx i }

/-- All waits whose handlers have not run. -/
def waits (t : WaitTimer α) : List α := t.armed ++ t.ready.map Prod.fst

@[simp] theorem armed_cancel (t : WaitTimer α) : t.cancel.armed = [] := rfl

@[simp] theorem armed_expire (t : WaitTimer α) : t.expire.armed = [] := rfl

@[simp] theorem armed_setTo (t : WaitTimer α) (a : α) : (t.setTo a).armed = [a] := rfl

@[simp] theorem armed_take (t : WaitTimer α) (i : Nat) : (t.take i).armed = t.armed := rfl

theorem mem_ready_cancel {t : WaitTimer α} {e : α × Bool} :
    e ∈ t.cancel.ready ↔ e ∈ t.ready ∨ (e.1 ∈ t.armed ∧ e.2 = true) := by
  unfold cancel
  rw [List.mem_append, List.mem_map]
  constructor
  · rintro (h | ⟨a, ha, rfl⟩)
    · exact .inl h
    · exact .inr ⟨ha, rfl⟩
  · rintro (h | ⟨ha, he⟩)
    · exact .inl h
    · exact .inr ⟨e.1, ha, Prod.ext rfl he.symm⟩

theorem mem_ready_expire {t : WaitTimer α} {e : α × Bool} :
    e ∈ t.expire.ready ↔ e ∈ t.ready ∨ (e.1 ∈ t.armed ∧ e.2 = false) := by
  unfold expire
  rw [List.mem_append, List.mem_map]
  constructor
  · rintro (h | ⟨a, ha, rfl⟩)
    · exact .inl h
    · exact .inr ⟨ha, rfl⟩
  · rintro (h | ⟨ha, he⟩)
    · exact .inl h
    · exact .inr ⟨e.1, ha, Prod.ext rfl he.symm⟩

theorem mem_ready_take {t : WaitTimer α} {i : Nat} {e f : α × Bool} (h : t.ready[i]? = some e) :
    f ∈ t.ready ↔ f = e ∨ f ∈ (t.take i).ready := by
  obtain ⟨hi, rfl⟩ := List.getElem?_eq_some_iff.mp h
  exact (List.getElem_cons_eraseIdx_perm hi).mem_iff.symm.trans List.mem_cons

/-! ## No wait is lost -/

theorem map_fst_tagged (l : List α) (b : Bool) : (l.map fun a => (a, b)).map Prod.fst = l := by
  rw [List.map_map]
  exact List.map_id l

theorem waits_cancel (t : WaitTimer α) : t.cancel.waits.Perm t.waits := by
  unfold waits cancel
  rw [List.nil_append, List.map_append, map_fst_tagged]
  exact List.perm_append_comm

theorem waits_expire (t : WaitTimer α) : t.expire.waits.Perm t.waits := by
  unfold waits expire
  rw [List.nil_append, List.map_append, map_fst_tagged]
  exact List.perm_append_comm

theorem waits_asyncWait (t : WaitTimer α) (a : α) : (t.asyncWait a).waits.Perm (a :: t.waits) := by
  unfold waits asyncWait
  rw [List.append_assoc, List.singleton_append]
  exact List.perm_middle

theorem waits_setTo (t : WaitTimer α) (a : α) : (t.setTo a).waits.Perm (a :: t.waits) :=
  (waits_asyncWait t.cancel a).trans ((waits_cancel t).cons a)

theorem waits_take {t : WaitTimer α} {i : Nat} {e : α × Bool} (h : t.ready[i]? = some e) :
    t.waits.Perm (e.1 :: (t.take i).waits) := by
  obtain ⟨hi, rfl⟩ := List.getElem?_eq_some_iff.mp h
  have hready : t.ready.Perm (t.ready[i] :: t.ready.eraseIdx i) :=
    (List.getElem_cons_eraseIdx_perm hi).symm
  unfold waits take
  exact ((hready.map Prod.fst).append_left t.armed).trans List.perm_middle

end WaitTimer

end Pion.Lib
