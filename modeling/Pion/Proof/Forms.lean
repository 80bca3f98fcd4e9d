import Pion.HttpParser

/-!
# What the three forms add to a dictionary

None of the functions that fill a dictionary looks at what is in it. So each adds the same entries
to any dictionary, and comes to the same end.
-/

namespace Pion.Proof

open Pion Lib

variable {x : Externals} {base : Dict}

/-! ## Query strings -/

theorem insert_base {d e : Dict} (h : d.Perm (e ++ base)) (entry : Bytes × Bytes) :
    (x.insert d entry).Perm (x.insert e entry ++ base) := by
  have hd := (x.insert_perm d entry).trans (h.cons entry)
  have he := (x.insert_perm e entry).append_right base
  exact hd.trans he.symm

theorem insertQuery_base {d e : Dict} (h : d.Perm (e ++ base)) (name value : Bytes) :
    (insertQuery x d name value).Perm (insertQuery x e name value ++ base) := by
  unfold insertQuery
  split
  · exact h
  · exact insert_base h _

theorem parseUrlEncodedLoop_base : ∀ (data : Bytes) (st : QueryParseState) (name value : Bytes)
    {d e : Dict}, d.Perm (e ++ base) →
    (parseUrlEncodedLoop x st name value d data).1.Perm
      ((parseUrlEncodedLoop x st name value e data).1 ++ base) := by
  intro data
  induction data with
  | nil =>
    intro st name value d e h
    cases st <;> exact insertQuery_base h name value
  | cons c cs ih =>
    intro st name value d e h
    have hinsert := insertQuery_base (x := x) h name value
    cases st with
    | parseName =>
      unfold parseUrlEncodedLoop
      split
      · exact ih _ _ _ h
      · split
        · exact ih _ _ _ hinsert
        · split
          · exact ih _ _ _ h
          · split
            · exact h
            · exact ih _ _ _ h
    | parseValue =>
      unfold parseUrlEncodedLoop
      split
      · exact ih _ _ _ hinsert
      · split
        · exact ih _ _ _ hinsert
        · split
          · exact ih _ _ _ h
          · split
            · exact h
            · exact ih _ _ _ h

/-- The pairs of a query string, or of a form that is encoded like one. -/
def queryEntries (x : Externals) (query : Bytes) : Dict := (parseUrlEncoded x [] query).1

theorem parseUrlEncoded_base (d : Dict) (query : Bytes) :
    (parseUrlEncoded x d query).1.Perm (queryEntries x query ++ d) := by
  unfold queryEntries parseUrlEncoded
  split
  · exact List.Perm.refl d
  · exact parseUrlEncodedLoop_base query _ _ _ (List.Perm.refl d)

/-! ## Cookies -/

theorem insertCookie_base {d e : Dict} (h : d.Perm (e ++ base)) (set : Bool) (name value : Bytes) :
    (insertCookie x set d name value).Perm (insertCookie x set e name value ++ base) := by
  unfold insertCookie
  split
  · exact h
  · exact insert_base h _

theorem parseCookieHeaderLoop_base (set : Bool) : ∀ (data : Bytes) (st : CookieParseState) (q : UInt8)
    (name value : Bytes) {d e : Dict}, d.Perm (e ++ base) →
    (parseCookieHeaderLoop x set st q name value d data).1.Perm
      ((parseCookieHeaderLoop x set st q name value e data).1 ++ base) := by
  intro data
  induction data with
  | nil =>
    intro st q name value d e h
    cases st <;> exact insertCookie_base h set name value
  | cons c cs ih =>
    intro st q name value d e h
    have hinsert := insertCookie_base (x := x) h set name value
    cases st with
    | parseName =>
      unfold parseCookieHeaderLoop
      repeat' split
      all_goals
        first
        | exact h
        | exact ih _ _ _ _ h
        | exact ih _ _ _ _ hinsert
    | parseValue =>
      unfold parseCookieHeaderLoop
      repeat' split
      all_goals
        first
        | exact h
        | exact ih _ _ _ _ h
        | exact ih _ _ _ _ hinsert
    | parseIgnore =>
      unfold parseCookieHeaderLoop
      split
      · exact ih _ _ _ _ h
      · exact ih _ _ _ _ h

/-- The cookies of the `Cookie` headers. -/
def cookieEntries (x : Externals) (headers : Dict) : Dict :=
  (headers.equalRange headerCookie).flatMap fun v => (parseCookieHeader x [] v false).1

theorem parseCookieHeaders_base : ∀ (values : List Bytes) (d : Dict),
    (values.foldl (fun d v => (parseCookieHeader x d v false).1) d).Perm
      ((values.flatMap fun v => (parseCookieHeader x [] v false).1) ++ d) := by
  intro values
  induction values with
  | nil => exact fun d => List.Perm.refl d
  | cons v values ih =>
    intro d
    have hfirst : (parseCookieHeader x d v false).1.Perm ((parseCookieHeader x [] v false).1 ++ d) :=
      parseCookieHeaderLoop_base false v _ _ _ _ (List.Perm.refl d)
    rw [List.foldl_cons, List.flatMap_cons]
    refine (ih _).trans ((hfirst.append_left _).trans ?_)
    rw [← List.append_assoc]
    exact (List.perm_append_comm).append_right d

/-! ## Multipart forms -/

/-- Two results of a pass over a multipart form, but for what the dictionary held before. -/
inductive SamePass (base : Dict) : MultiPart ⊕ (Dict × Except Exn Bool) →
    MultiPart ⊕ (Dict × Except Exn Bool) → Prop
  | goes (s : MultiPart) {e : Dict} (h : s.dict.Perm (e ++ base)) :
      SamePass base (.inl s) (.inl { s with dict := e })
  | leaves {d e : Dict} (r : Except Exn Bool) (h : d.Perm (e ++ base)) :
      SamePass base (.inr (d, r)) (.inr (e, r))

theorem endOfValue_dict (s : MultiPart) (d : Dict) :
    { s with dict := d }.endOfValue = { s.endOfValue with dict := d } := by
  unfold MultiPart.endOfValue
  dsimp only
  split
  · rfl
  · split
    · split <;> rfl
    · rfl

theorem endOfValue_keeps (s : MultiPart) : s.endOfValue.dict = s.dict := by
  unfold MultiPart.endOfValue
  dsimp only
  split
  · rfl
  · split
    · split <;> rfl
    · rfl

theorem multiPartStep_base (data boundary : Bytes) (s : MultiPart) {e : Dict}
    (h : s.dict.Perm (e ++ base)) (c : UInt8) :
    SamePass base (multiPartStep x data boundary s c)
      (multiPartStep x data boundary { s with dict := e } c) := by
  unfold multiPartStep
  dsimp only
  cases hst : s.parseState <;> dsimp only
  case fieldData => exact of_ite₂ (.leaves _ h) (.goes _ (insert_base h _))
  case headerValue =>
    refine of_ite₂ ?_ (.goes _ h)
    rw [← hst, endOfValue_dict s e]
    refine .goes (s.endOfValue.goto _) (?_ : s.endOfValue.dict.Perm (e ++ base))
    rw [endOfValue_keeps]
    exact h
  all_goals
    repeat' apply of_ite₂
    all_goals
      first
      | exact .goes _ h
      | exact .leaves _ h

theorem multiPartLoop_base (data boundary : Bytes) : ∀ (n : Nat) (s : MultiPart) {e : Dict},
    s.dict.Perm (e ++ base) →
    (multiPartLoop x data boundary n s).2 = (multiPartLoop x data boundary n { s with dict := e }).2 ∧
      (multiPartLoop x data boundary n s).1.Perm
        ((multiPartLoop x data boundary n { s with dict := e }).1 ++ base) := by
  intro n
  induction n with
  | zero => exact fun s e h => ⟨rfl, h⟩
  | succ n ih =>
    intro s e h
    rw [multiPartLoop, multiPartLoop]
    dsimp only
    cases data[s.ptr]? with
    | none => exact ⟨rfl, h⟩
    | some c =>
      dsimp only
      have hstep := multiPartStep_base (x := x) data boundary s h c
      generalize multiPartStep x data boundary s c = r,
        multiPartStep x data boundary { s with dict := e } c = r' at hstep
      cases hstep with
      | goes t h => exact ih t h
      | leaves q h => exact ⟨rfl, h⟩

/-- What a multipart form adds, and what becomes of it, does not depend on the dictionary. -/
theorem parseMultipartFormData_base (d : Dict) (contentType data : Bytes) :
    (parseMultipartFormData x d contentType data).2 = (parseMultipartFormData x [] contentType data).2 ∧
      (parseMultipartFormData x d contentType data).1.Perm
        ((parseMultipartFormData x [] contentType data).1 ++ d) := by
  unfold parseMultipartFormData
  split
  · exact ⟨rfl, List.Perm.refl d⟩
  · split
    · exact ⟨rfl, List.Perm.refl d⟩
    · exact multiPartLoop_base data _ _ { dict := d, ptr := searchFrom data _ 0 } (List.Perm.refl d)

end Pion.Proof
