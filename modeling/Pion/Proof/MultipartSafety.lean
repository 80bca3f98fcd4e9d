import Pion.Proof.PartRuns

/-!
# Multipart forms of any bytes

`parse_multipart_form_data` is given whatever a client sends. It terminates, and reads nothing
that is outside of the form. But when a field is recorded whose blank line is followed by the
boundary at once, the CRLF of that line is taken for the one in front of the boundary: the field
ends before it begins, and `assign` throws.
-/

namespace Pion.Proof

open Pion Lib

variable {x : Externals} {data b : Bytes}

/-- What is looked for: two dashes, and what the type has behind `boundary=`. -/
def boundaryOf (contentType : Bytes) : Option Bytes :=
  (findSub (str "boundary=") contentType).map fun pos => str "--" ++ contentType.drop (pos + 9)

theorem boundaryOf_head {contentType : Bytes} (hb : b ∈ boundaryOf contentType) : b.head? = some dash := by
  obtain ⟨pos, _, rfl⟩ := Option.map_eq_some_iff.mp hb
  rfl

/-- The bytes that a pass over `c` may read, as offsets into the form. A search reads what it
searches, `assign` what it assigns. -/
def PassReads (data b : Bytes) (s : MultiPart) (c : UInt8) (i : Int) : Prop :=
  match s.parseState with
  | .start => False
  | .headerCr => i = s.ptr ∨ (c = dash ∧ s.ptr + 1 < data.length ∧ i = s.ptr + 1)
  | .headerLf | .headerName | .headerSpace | .headerValue => i = s.ptr
  | .headerLastLf => i = s.ptr ∨ ((s.ptr : Int) ≤ i ∧ i < data.length)
  | .fieldData =>
    let next : Int := searchFrom data b s.ptr
    ((s.ptr : Int) ≤ i ∧ i < data.length) ∨ i = next - 2 ∨ i = next - 1 ∨
      ((s.ptr : Int) ≤ i ∧ i < fieldEnd data (searchFrom data b s.ptr))

/-- What is asked of `parse_multipart_form_data`: that the passes are fewer than the loop of the
model is allowed, that they read inside of the form, that no length is negative, and that nothing
is thrown. -/
structure MemorySafe (x : Externals) (dict : Dict) (contentType data : Bytes) : Prop where
  terminates : ∀ b ∈ boundaryOf contentType, ∀ cs s,
    exec (pass x data b) (firstState data b dict).1 cs = some s → cs.length < 2 * data.length + 2
  reads : ∀ b ∈ boundaryOf contentType, ∀ cs s,
    exec (pass x data b) (firstState data b dict).1 cs = some s → ∀ c, data[s.ptr]? = some c →
      ∀ i, PassReads data b s c i → 0 ≤ i ∧ i < data.length
  lengths : ∀ b ∈ boundaryOf contentType, ∀ cs s,
    exec (pass x data b) (firstState data b dict).1 cs = some s → s.parseState = .fieldData →
      s.ptr < data.length → s.ptr ≤ fieldEnd data (searchFrom data b s.ptr)
  returns : ∃ found, (parseMultipartFormData x dict contentType data).2 = .ok found

theorem searchFrom_le_length (data : Bytes) (hb : b.head? = some dash) (p : Nat) :
    searchFrom data b p ≤ data.length := by
  unfold searchFrom
  cases hi : findSub b (data.drop p) with
  | none => exact Nat.le_refl _
  | some i =>
    have hfound := (findSub_some hi).1.length_le
    rw [List.drop_drop, List.length_drop] at hfound
    have hpos : 0 < b.length := by
      obtain ⟨b', rfl⟩ := List.head?_eq_some_iff.mp hb
      exact Nat.succ_pos _
    show p + i ≤ data.length
    omega

theorem fieldEnd_le (data : Bytes) (next : Nat) : fieldEnd data next ≤ next := by
  unfold fieldEnd
  split
  · exact Nat.sub_le _ _
  · exact Nat.le_refl _

theorem part_of_run {d : Dict} {cs : Bytes} {s : MultiPart}
    (h : exec (pass x data b) (firstState data b d).1 cs = some s) :
    ∃ text, exec (partPass x data b) (firstState data b d) cs = some (s, text) := tracked_of_exec h []

/-- Data is looked at behind the boundary and two line ends. -/
theorem two_le_ptr (hb : b.head? = some dash) {d : Dict} {cs : Bytes} {s : MultiPart}
    (h : exec (pass x data b) (firstState data b d).1 cs = some s) (hs : s.parseState = .fieldData) :
    2 ≤ s.ptr := by
  obtain ⟨text, hrun⟩ := part_of_run h
  obtain ⟨p, _, _, _, _, _, q, _, hptr⟩ := reached_of_run hb hrun hs
  obtain ⟨w, hw⟩ := p.front_ends b
  rw [hptr, hw, List.length_append, List.length_cons, List.length_singleton]
  omega

theorem reads_inside (hb : b.head? = some dash) {d : Dict} {cs : Bytes} {s : MultiPart}
    (h : exec (pass x data b) (firstState data b d).1 cs = some s) {c : UInt8} (hc : data[s.ptr]? = some c)
    {i : Int} (hi : PassReads data b s c i) : 0 ≤ i ∧ i < data.length := by
  obtain ⟨hlt, _⟩ := List.getElem?_eq_some_iff.mp hc
  unfold PassReads at hi
  cases hs : s.parseState with
  | fieldData =>
    rw [hs] at hi
    have htwo := two_le_ptr hb h hs
    have hle := searchFrom_le data b hlt.le
    have hlen := searchFrom_le_length data hb s.ptr
    have hend := fieldEnd_le data (searchFrom data b s.ptr)
    dsimp only at hi
    omega
  | start =>
    rw [hs] at hi
    exact hi.elim
  | headerCr | headerLf | headerName | headerSpace | headerValue | headerLastLf =>
    rw [hs] at hi
    dsimp only at hi
    omega

/-- Nothing is thrown as long as no length is negative. -/
theorem multiPartLoop_returns {s₀ : MultiPart} (n : Nat)
    (h : ∀ cs s, exec (pass x data b) s₀ cs = some s → s.parseState = .fieldData → s.ptr < data.length →
      s.ptr ≤ fieldEnd data (searchFrom data b s.ptr)) :
    ∃ found, (multiPartLoop x data b n s₀).2 = .ok found := by
  induction n generalizing s₀ with
  | zero => exact ⟨_, rfl⟩
  | succ n ih =>
    rw [multiPartLoop]
    cases hc : data[s₀.ptr]? with
    | none => exact ⟨_, rfl⟩
    | some c =>
      dsimp only
      cases hstep : multiPartStep x data b s₀ c with
      | inl t =>
        refine ih fun cs s hrun => h (c :: cs) s ?_
        rw [exec, pass_eq_some.mpr ⟨hc, hstep⟩]
        exact hrun
      | inr r =>
        dsimp only
        unfold multiPartStep at hstep
        cases hs : s₀.parseState with
        | fieldData =>
          have hend := h [] s₀ rfl hs (List.getElem?_eq_some_iff.mp hc).1
          rw [hs] at hstep
          dsimp only at hstep
          rw [if_neg (not_lt.mpr hend)] at hstep
          cases hstep
        | start =>
          rw [hs] at hstep
          cases hstep
        | headerCr =>
          rw [hs] at hstep
          dsimp only at hstep
          split_ifs at hstep
          · exact ⟨true, by rw [← Sum.inr.inj hstep]⟩
          · exact ⟨false, by rw [← Sum.inr.inj hstep]⟩
        | headerLf | headerLastLf =>
          rw [hs] at hstep
          dsimp only at hstep
          split_ifs at hstep
          exact ⟨false, by rw [← Sum.inr.inj hstep]⟩
        | headerName | headerSpace | headerValue =>
          rw [hs] at hstep
          dsimp only at hstep
          split_ifs at hstep

theorem parseMultipartFormData_loop (x : Externals) (dict : Dict) (contentType data : Bytes) :
    (∃ found, parseMultipartFormData x dict contentType data = (dict, .ok found)) ∨
      ∃ b ∈ boundaryOf contentType, parseMultipartFormData x dict contentType data =
        multiPartLoop x data b (2 * data.length + 2) (firstState data b dict).1 := by
  unfold parseMultipartFormData
  by_cases hdata : data = []
  · exact .inl ⟨true, if_pos hdata⟩
  · rw [if_neg hdata]
    cases hpos : findSub (str "boundary=") contentType with
    | none => exact .inl ⟨false, rfl⟩
    | some pos => exact .inr ⟨_, Option.map_eq_some_iff.mpr ⟨pos, hpos, rfl⟩, rfl⟩

/-- A bare part that the loop comes to has a negative length. -/
theorem reached_not_bare (hb : b.head? = some dash) {d : Dict} {p : Part} (hp : Reached b data p)
    (hlengths : ∀ cs s, exec (pass x data b) (firstState data b d).1 cs = some s → s.parseState = .fieldData →
      s.ptr < data.length → s.ptr ≤ fieldEnd data (searchFrom data b s.ptr)) : ¬ p.Bare b := by
  rintro ⟨hlast, hkept, hstart⟩
  obtain ⟨cs, s, hrun, hs, _, hdrop, q, hq, hptr⟩ := run_of_reached (x := x) hb d hp fun _ => hkept
  have hrest : p.rest ≠ [] := by
    intro hnil
    rw [hnil, List.prefix_nil] at hstart
    rw [hstart] at hb
    cases hb
  have hlt : s.ptr < data.length := by
    by_contra hge
    rw [List.drop_eq_nil_of_le (not_lt.mp hge)] at hdrop
    exact hrest hdrop.symm
  have hend := hlengths cs s (exec_of_tracked hrun) hs hlt
  have hneg := (fieldEnd_lt_iff hq hptr hrest).mpr ⟨hlast, hstart⟩
  omega

/--
**When a form of any bytes is read safely**: when no part that the loop comes to is to be
recorded, ends its headers with a CRLF, and has the boundary at once behind that.
-/
theorem memorySafe_iff (x : Externals) (dict : Dict) (contentType data : Bytes) :
    MemorySafe x dict contentType data ↔
      ∀ b ∈ boundaryOf contentType, ∀ p, Reached b data p → ¬ p.Bare b := by
  constructor
  · intro h b hb p hp
    exact reached_not_bare (boundaryOf_head hb) hp (h.lengths b hb)
  · intro h
    have hlengths : ∀ b ∈ boundaryOf contentType, ∀ cs s,
        exec (pass x data b) (firstState data b dict).1 cs = some s → s.parseState = .fieldData →
          s.ptr < data.length → s.ptr ≤ fieldEnd data (searchFrom data b s.ptr) := by
      intro b hb cs s hrun hs hlt
      by_contra hend
      obtain ⟨text, hrun⟩ := part_of_run hrun
      obtain ⟨p, hp, hentered, _, _, hdrop, q, hq, hptr⟩ := reached_of_run (boundaryOf_head hb) hrun hs
      have hrest : p.rest ≠ [] := by
        rw [← hdrop]
        exact fun hnil => absurd (List.drop_eq_nil_iff.mp hnil) (by omega)
      obtain ⟨hlast, hstart⟩ := (fieldEnd_lt_iff hq hptr hrest).mp (not_le.mp hend)
      exact h b hb p hp ⟨hlast, hentered hlast, hstart⟩
    refine ⟨?_, fun b hb cs s hrun c hc i hi => reads_inside (boundaryOf_head hb) hrun hc hi, hlengths, ?_⟩
    · intro b hb cs s hrun
      have hle := length_add_passesLeft hrun
      unfold passesLeft firstState at hle
      rw [if_pos rfl] at hle
      omega
    · rcases parseMultipartFormData_loop x dict contentType data with ⟨found, hfound⟩ | ⟨b, hb, hloop⟩
      · exact ⟨found, by rw [hfound]⟩
      · rw [hloop]
        exact multiPartLoop_returns _ (hlengths b hb)

/-- A field without data, whose sender has left out the CRLF behind it. -/
def bareField : Bytes :=
  str "--B" ++ stringCrlf ++ str "Content-Disposition: form-data; name=\"n\"" ++ stringCrlf ++ stringCrlf ++
    str "--B--"

theorem bareField_unsafe :
    ¬ MemorySafe plainExternals [] (str "multipart/form-data; boundary=B") bareField := by
  intro h
  obtain ⟨found, hfound⟩ := h.returns
  have hthrows : parseMultipartFormData plainExternals [] (str "multipart/form-data; boundary=B") bareField =
      ([], .error .lengthError) := by decide +kernel
  rw [hthrows] at hfound
  cases hfound

end Pion.Proof
