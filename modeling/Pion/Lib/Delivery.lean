import Mathlib.Data.List.Induction

/-!
# Items out of a stream

A program is given a stream of items in pieces, which end wherever they end. It takes the
items one after another, and waits when it has not got the whole of the next one.

How far it is shows in the items it has taken, so its invariant `Inv` is about them.
`Advanced` is what one step does, and the two theorems say that the program gets through
any pieces: `drain` between two of them, `exists_run` from the first to the last.
-/

namespace Pion.Lib

variable {σ ι β : Type} {Inv : List ι → σ → Prop} {waits : σ → Prop}

/-- The program waits with the items `done` taken, or it has taken the next one. -/
def Advanced (Inv : List ι → σ → Prop) (waits : σ → Prop) (done todo : List ι) (s : σ) : Prop :=
  (Inv done s ∧ waits s) ∨ ∃ q todo', todo = q :: todo' ∧ Inv (done ++ [q]) s

/-- The program is somewhere among the items. -/
def Along (Inv : List ι → σ → Prop) (items : List ι) (s : σ) : Prop :=
  ∃ done todo, items = done ++ todo ∧ Inv done s

theorem Advanced.along {done todo : List ι} {s : σ} (h : Advanced Inv waits done todo s) :
    Along Inv (done ++ todo) s := by
  rcases h with ⟨h, _⟩ | ⟨q, todo', rfl, h⟩
  · exact ⟨done, todo, rfl, h⟩
  · exact ⟨done ++ [q], todo', by rw [List.append_assoc]; rfl, h⟩

/-- **A program that can always advance comes to wait**, for it runs out of items. `R` is
what else is known about its states, such as that they can be reached. -/
theorem drain {R : σ → Prop} {items : List ι}
    (hadvance : ∀ done todo s, items = done ++ todo → R s → Inv done s → ¬ waits s →
      ∃ s', R s' ∧ Advanced Inv waits done todo s')
    {s : σ} (hR : R s) (hs : Along Inv items s) : ∃ s', R s' ∧ waits s' := by
  obtain ⟨done, todo, hitems, hinv⟩ := hs
  induction todo generalizing done s with
  | nil =>
    by_cases hw : waits s
    · exact ⟨s, hR, hw⟩
    obtain ⟨s', hR', ⟨_, hw'⟩ | ⟨q, todo', he, _⟩⟩ := hadvance done [] s hitems hR hinv hw
    · exact ⟨s', hR', hw'⟩
    · cases he
  | cons q todo ih =>
    by_cases hw : waits s
    · exact ⟨s, hR, hw⟩
    obtain ⟨s', hR', ⟨_, hw'⟩ | ⟨q', todo', he, hinv'⟩⟩ := hadvance done (q :: todo) s hitems hR hinv hw
    · exact ⟨s', hR', hw'⟩
    · obtain ⟨rfl, rfl⟩ := List.cons.inj he
      exact ih hR' (done ++ [q]) (by rw [hitems, List.append_cons]) hinv'

/-- **A program that gets through each piece gets through all of them.** -/
theorem exists_run {Run : List (List β) → σ → Prop} {ok : List β → Prop} {stream : List β}
    (hstart : ∃ s, Run [] s ∧ waits s)
    (hread : ∀ reads data s, Run reads s → waits s → ok data →
      (reads ++ [data]).flatten <+: stream → ∃ s', Run (reads ++ [data]) s' ∧ waits s')
    (reads : List (List β)) (hok : ∀ b ∈ reads, ok b) (hstream : reads.flatten <+: stream) :
    ∃ s, Run reads s ∧ waits s := by
  induction reads using List.reverseRecOn with
  | nil => exact hstart
  | append_singleton reads data ih =>
    obtain ⟨hfront, hdata⟩ := List.forall_mem_append.mp hok
    have hpre : reads.flatten <+: stream := by
      rw [List.flatten_append] at hstream
      exact (List.prefix_append _ _).trans hstream
    obtain ⟨s, hs, hw⟩ := ih hfront hpre
    exact hread reads data s hs hw (List.forall_mem_singleton.mp hdata) hstream

end Pion.Lib
