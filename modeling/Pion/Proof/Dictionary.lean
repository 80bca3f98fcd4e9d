import Pion.Algorithm

/-!
# The values of a name in a dictionary

Keys that are equal up to case are one name. Each call to a dictionary sets the values of its
own name and leaves those of the others.
-/

namespace Pion.Proof

open Pion

variable {x : Externals}

theorem iequals_refl (k : Bytes) : iequals k k = true := iequals_iff.mpr rfl

/-- Entries that are equal to a key are not equal to a key of another name. -/
theorem iequals_other {a key k : Bytes} (ha : iequals a key = true) (hk : iequals key k = false) :
    iequals a k = false := by
  rw [Bool.eq_false_iff] at hk ⊢
  intro hak
  exact hk (iequals_iff.mpr ((iequals_iff.mp ha).symm.trans (iequals_iff.mp hak)))

theorem equalRange_congr (d : Dict) {key k : Bytes} (h : iequals key k = true) :
    d.equalRange key = d.equalRange k := by
  unfold Dict.equalRange
  refine congrArg _ (List.filter_congr fun e _ => ?_)
  unfold iequals
  rw [iequals_iff.mp h]

theorem equalRange_cons_self {e : Bytes × Bytes} {k : Bytes} (he : iequals e.1 k = true) (d : Dict) :
    Dict.equalRange (e :: d) k = e.2 :: d.equalRange k := by
  unfold Dict.equalRange
  rw [List.filter_cons_of_pos (by exact he), List.map_cons]

theorem equalRange_cons_other {e : Bytes × Bytes} {k : Bytes} (he : iequals e.1 k = false) (d : Dict) :
    Dict.equalRange (e :: d) k = d.equalRange k := by
  unfold Dict.equalRange
  rw [List.filter_cons_of_neg (by simp [he])]

theorem equalRange_eq_nil {d : Dict} {key : Bytes} : d.equalRange key = [] ↔ (d.lookup key).isNone := by
  unfold Dict.equalRange Dict.lookup
  simp

/-- The library may put the new entry anywhere. -/
theorem insert_equalRange (d : Dict) (e : Bytes × Bytes) (k : Bytes) :
    ((x.insert d e).equalRange k).Perm (Dict.equalRange (e :: d) k) :=
  ((x.insert_perm d e).filter _).map _

theorem deleteValue_equalRange_self {key k : Bytes} (hk : iequals key k = true) (d : Dict) :
    (d.deleteValue key).equalRange k = [] := by
  rw [← equalRange_congr _ hk]
  refine List.map_eq_nil_iff.mpr (List.filter_eq_nil_iff.mpr fun e he => ?_)
  have hnot := (List.mem_filter.mp he).2
  simpa using hnot

theorem deleteValue_equalRange_other {key k : Bytes} (hk : iequals key k = false) (d : Dict) :
    (d.deleteValue key).equalRange k = d.equalRange k := by
  unfold Dict.deleteValue Dict.equalRange
  rw [List.filter_filter]
  refine congrArg _ (List.filter_congr fun e _ => ?_)
  by_cases he : iequals e.1 key = true
  · rw [iequals_other he hk, Bool.false_and]
  · simp [he]

/-- `replace` keeps the first entry of its name, and drops the others. -/
theorem replace_equalRange_self (key value : Bytes) {d : Dict} (h : d.equalRange key ≠ []) :
    (d.replace key value).equalRange key = [value] := by
  induction d with
  | nil => exact absurd rfl h
  | cons e d ih =>
    unfold Dict.replace
    split
    · rename_i he
      rw [equalRange_cons_self (e := (e.1, value)) he]
      exact congrArg _ (deleteValue_equalRange_self (iequals_refl key) d)
    · rename_i he
      rw [Bool.not_eq_true] at he
      rw [equalRange_cons_other he] at h ⊢
      exact ih h

theorem replace_equalRange_other {key k : Bytes} (hk : iequals key k = false) (value : Bytes) (d : Dict) :
    (d.replace key value).equalRange k = d.equalRange k := by
  induction d with
  | nil => rfl
  | cons e d ih =>
    unfold Dict.replace
    split
    · rename_i he
      have hother : iequals e.1 k = false := iequals_other he hk
      rw [equalRange_cons_other (e := (e.1, value)) hother, equalRange_cons_other hother]
      exact deleteValue_equalRange_other hk d
    · by_cases he : iequals e.1 k = true
      · rw [equalRange_cons_self he, equalRange_cons_self he, ih]
      · rw [Bool.not_eq_true] at he
        rw [equalRange_cons_other he, equalRange_cons_other he, ih]

/-- `change_value` leaves one value for its key. -/
theorem changeValue_equalRange (d : Dict) (key value : Bytes) :
    (d.changeValue x key value).equalRange key = [value] := by
  unfold Dict.changeValue
  split
  · rename_i hnone
    -- no such header yet: it is inserted, and is the only one
    have hinsert := insert_equalRange (x := x) d (key, value) key
    rw [equalRange_cons_self (iequals_refl key), equalRange_eq_nil.mpr hnone] at hinsert
    exact List.perm_singleton.mp hinsert
  · rename_i hsome
    exact replace_equalRange_self key value (mt equalRange_eq_nil.mp hsome)

theorem changeValue_equalRange_other {key k : Bytes} (hk : iequals key k = false) (d : Dict) (value : Bytes) :
    ((d.changeValue x key value).equalRange k).Perm (d.equalRange k) := by
  unfold Dict.changeValue
  split
  · have hinsert := insert_equalRange (x := x) d (key, value) k
    rwa [equalRange_cons_other hk] at hinsert
  · exact .of_eq (replace_equalRange_other hk value d)

/-- `change_value` adds no value to another key. -/
theorem changeValue_other {d : Dict} {key k value : Bytes} (hk : iequals key k = false)
    (h : d.equalRange k = []) : (d.changeValue x key value).equalRange k = [] :=
  ((changeValue_equalRange_other hk d value).trans (.of_eq h)).eq_nil

end Pion.Proof
