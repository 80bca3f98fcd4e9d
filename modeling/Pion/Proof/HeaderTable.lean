import Pion.HeaderTable
import Pion.Proof.Dictionary
import Pion.HttpMessage
import Mathlib.Logic.Function.Basic

/-!
# Headers are a multimap without case

The container of the headers stands for a function from names, in upper case, to the values that
they have. The hash table does, because `ihash` respects `iequal_to`; the `Dict` that stands for it
elsewhere does as well.

The library may put a new value anywhere among those of its name, so the values of a name are the
same up to their order. With a library that puts it behind them, they are the same.
-/

namespace Pion.Proof

open Pion Lib

/-! ## The model -/

inductive HeaderCall where
  | add (key value : Bytes)
  | change (key value : Bytes)
  | delete (key : Bytes)

/-- A name without its case. -/
def foldCase (key : Bytes) : Bytes := key.map toUpper

namespace HeaderCall

/-- What a call does to the values of the names. -/
def runModel (m : Bytes → List Bytes) : HeaderCall → Bytes → List Bytes
  | add key value => Function.update m (foldCase key) (m (foldCase key) ++ [value])
  | change key value => Function.update m (foldCase key) [value]
  | delete key => Function.update m (foldCase key) []

/-- What it does to the hash table. -/
def runTable {pl : Platform} (lib : TableLibrary Bytes Bytes) (t : HeaderTable pl) :
    HeaderCall → HeaderTable pl
  | add key value => t.addHeader lib key value
  | change key value => t.changeHeader lib key value
  | delete key => t.deleteHeader key

/-- What it does to a message. -/
def runMessage (x : Externals) (m : HttpMessage) : HeaderCall → HttpMessage
  | add key value => m.addHeader x key value
  | change key value => m.changeHeader x key value
  | delete key => m.deleteHeader key

end HeaderCall

/-- The values of each key are those of its name in the model, as far as `R` tells. -/
def Represents (R : List Bytes → List Bytes → Prop) (values : Bytes → List Bytes)
    (m : Bytes → List Bytes) : Prop :=
  ∀ key, R (values key) (m (foldCase key))

/-- **What every call keeps is kept by all of them.** -/
theorem foldl_represents {σ : Type} {R : List Bytes → List Bytes → Prop} (values : σ → Bytes → List Bytes)
    {run : σ → HeaderCall → σ}
    (hstep : ∀ s m c, Represents R (values s) m → Represents R (values (run s c)) (HeaderCall.runModel m c))
    (calls : List HeaderCall) {s : σ} {m : Bytes → List Bytes} (h : Represents R (values s) m) :
    Represents R (values (calls.foldl run s)) (calls.foldl HeaderCall.runModel m) := by
  induction calls generalizing s m with
  | nil => exact h
  | cons c calls ih => exact ih (hstep s m c h)

theorem foldCase_eq {a b : Bytes} : iequals a b = true ↔ foldCase a = foldCase b := iequals_iff

/-- A call that has one effect on its own name, and none on the others. -/
theorem represents_update {R : List Bytes → List Bytes → Prop} {values values' : Bytes → List Bytes}
    {m : Bytes → List Bytes} (h : Represents R values m) {key : Bytes} {vs : List Bytes}
    (hself : ∀ k, iequals key k = true → R (values' k) vs)
    (hother : ∀ k, iequals key k = false → R (values k) (m (foldCase k)) → R (values' k) (m (foldCase k))) :
    Represents R values' (Function.update m (foldCase key) vs) := by
  intro k
  by_cases hk : iequals key k = true
  · rw [← foldCase_eq.mp hk, Function.update_self]
    exact hself k hk
  · have hne : foldCase k ≠ foldCase key := fun he => hk (foldCase_eq.mpr he.symm)
    rw [Function.update_of_ne hne]
    exact hother k (Bool.eq_false_iff.mpr hk) (h k)

/-! ## The hash table -/

section table

variable {pl : Platform} {lib : TableLibrary Bytes Bytes}

/-- The values of a key. -/
def tableValues (t : HeaderTable pl) (key : Bytes) : List Bytes := (t.range key).map Prod.snd

/-- The loop of `change_value` leaves the first entry. -/
theorem range_eraseRest {key : Bytes} {e : Bytes × Bytes} (rest : List (Bytes × Bytes)) :
    ∀ t : HeaderTable pl, ∀ r, r.length = rest.length → t.range key = e :: r →
      (rest.foldl (fun t _ => t.eraseSecond key) t).range key = [e] := by
  induction rest with
  | nil =>
    intro t r hr ht
    rw [List.length_nil, List.length_eq_zero_iff] at hr
    rw [List.foldl_nil, ht, hr]
  | cons f rest ih =>
    intro t r hr ht
    rw [List.foldl_cons]
    refine ih (t.eraseSecond key) r.tail ?_ ?_
    · rw [List.length_tail, hr, List.length_cons, Nat.add_sub_cancel]
    · rw [HashTable.range_eraseSecond_self t (iequals_refl key), ht]

theorem range_eraseRest_other {key k : Bytes} (hk : iequals key k = false) (rest : List (Bytes × Bytes))
    (t : HeaderTable pl) :
    (rest.foldl (fun t _ => t.eraseSecond key) t).range k = t.range k := by
  induction rest generalizing t with
  | nil => rfl
  | cons f rest ih => rw [List.foldl_cons, ih, HashTable.range_eraseSecond_other t hk]

/-- **`change_value` leaves one value**, the new one. -/
theorem tableValues_change_self (t : HeaderTable pl) {key k : Bytes} (hk : iequals key k = true)
    (value : Bytes) : tableValues (t.changeHeader lib key value) k = [value] := by
  have hrange : t.range key = t.range k := t.range_congr hk
  unfold tableValues HeaderTable.changeHeader
  cases ht : t.range key with
  | nil =>
    obtain ⟨u, v, huv, hinsert⟩ := HashTable.range_insert_self lib t (e := (key, value)) hk
    rw [← hrange, ht] at huv
    obtain ⟨rfl, rfl⟩ := List.append_eq_nil_iff.mp huv.symm
    show ((t.insert lib (key, value)).range k).map Prod.snd = [value]
    rw [hinsert]
    rfl
  | cons e rest =>
    have hfirst : (t.setFirst key value).range key = (e.1, value) :: rest := by
      rw [HashTable.range_setFirst_self t (iequals_refl key), ht]
    show ((rest.foldl (fun t _ => t.eraseSecond key) (t.setFirst key value)).range k).map Prod.snd = [value]
    rw [← HashTable.range_congr _ hk, range_eraseRest rest _ rest rfl hfirst]
    rfl

theorem tableValues_change_other (t : HeaderTable pl) {key k : Bytes} (hk : iequals key k = false)
    (value : Bytes) : tableValues (t.changeHeader lib key value) k = tableValues t k := by
  unfold tableValues HeaderTable.changeHeader
  cases ht : t.range key with
  | nil => exact congrArg _ (HashTable.range_insert_other lib t (e := (key, value)) hk)
  | cons e rest =>
    show ((rest.foldl (fun t _ => t.eraseSecond key) (t.setFirst key value)).range k).map Prod.snd = _
    rw [range_eraseRest_other hk, HashTable.range_setFirst_other t hk]

theorem tableValues_delete_self (t : HeaderTable pl) {key k : Bytes} (hk : iequals key k = true) :
    tableValues (t.deleteHeader key) k = [] := by
  unfold tableValues HeaderTable.deleteHeader
  split
  · rename_i ht
    rw [← t.range_congr hk, ht]
    rfl
  · rw [HashTable.range_eraseRange_self t hk]
    rfl

theorem tableValues_delete_other (t : HeaderTable pl) {key k : Bytes} (hk : iequals key k = false) :
    tableValues (t.deleteHeader key) k = tableValues t k := by
  unfold tableValues HeaderTable.deleteHeader
  split
  · rfl
  · rw [HashTable.range_eraseRange_other t hk]

/-- One call, for a library that puts new values where `R` allows. -/
theorem runTable_represents {R : List Bytes → List Bytes → Prop} (hrefl : ∀ vs, R vs vs)
    (hadd : ∀ (t : HeaderTable pl) (key value k : Bytes) (vs : List Bytes), iequals key k = true →
      R (tableValues t k) vs → R (tableValues (t.addHeader lib key value) k) (vs ++ [value]))
    (t : HeaderTable pl) (m : Bytes → List Bytes) (c : HeaderCall) (h : Represents R (tableValues t) m) :
    Represents R (tableValues (c.runTable lib t)) (c.runModel m) := by
  cases c with
  | add key value =>
    refine represents_update h ?_ ?_
    · intro k hk
      refine hadd t key value k _ hk ?_
      rw [foldCase_eq.mp hk]
      exact h k
    · intro k hk hold
      have hrange := HashTable.range_insert_other lib t (e := (key, value)) hk
      show R (((t.insert lib (key, value)).range k).map Prod.snd) _
      rw [hrange]
      exact hold
  | change key value =>
    refine represents_update h ?_ ?_
    · intro k hk
      show R (tableValues (t.changeHeader lib key value) k) _
      rw [tableValues_change_self t hk]
      exact hrefl _
    · intro k hk hold
      show R (tableValues (t.changeHeader lib key value) k) _
      rw [tableValues_change_other t hk]
      exact hold
  | delete key =>
    refine represents_update h ?_ ?_
    · intro k hk
      show R (tableValues (t.deleteHeader key) k) _
      rw [tableValues_delete_self t hk]
      exact hrefl _
    · intro k hk hold
      show R (tableValues (t.deleteHeader key) k) _
      rw [tableValues_delete_other t hk]
      exact hold

/-- Wherever a value is put, it is one more. -/
theorem tableValues_add_perm (t : HeaderTable pl) (key value k : Bytes) (vs : List Bytes)
    (hk : iequals key k = true) (h : (tableValues t k).Perm vs) :
    (tableValues (t.addHeader lib key value) k).Perm (vs ++ [value]) := by
  obtain ⟨u, v, huv, hinsert⟩ := HashTable.range_insert_self lib t (e := (key, value)) hk
  have hvalues : (tableValues (t.addHeader lib key value) k).Perm (value :: tableValues t k) := by
    unfold tableValues HeaderTable.addHeader
    rw [hinsert, huv]
    exact (List.perm_middle.map Prod.snd)
  exact hvalues.trans ((h.cons value).trans (List.perm_append_singleton value vs).symm)

/-- A library that puts a new entry behind all others of its bucket. -/
def appending (grow : Nat → Nat → Option Nat) : TableLibrary Bytes Bytes where
  place b e := b ++ [e]
  place_eq b _ := ⟨b, [], (List.append_nil b).symm, rfl⟩
  grow := grow

theorem range_put_appending (grow : Nat → Nat → Option Nat) (t : HeaderTable pl) {e : Bytes × Bytes}
    {k : Bytes} (hk : iequals e.1 k = true) :
    (t.put (appending grow) e).range k = t.range k ++ [e] := by
  have he : HashTable.isOf (headerHashing pl) e.1 e = true := iequals_refl e.1
  unfold HashTable.put
  rw [HashTable.range_setBucket_self hk, ← t.range_congr hk]
  show (t.bucket e.1 ++ [e]).filter _ = _
  rw [List.filter_append, List.filter_cons_of_pos he]
  rfl

theorem tableValues_add_appending (grow : Nat → Nat → Option Nat) (t : HeaderTable pl)
    (key value k : Bytes) (vs : List Bytes) (hk : iequals key k = true) (h : tableValues t k = vs) :
    tableValues (t.addHeader (appending grow) key value) k = vs ++ [value] := by
  have hrange : (t.insert (appending grow) (key, value)).range k = t.range k ++ [(key, value)] := by
    unfold HashTable.insert
    cases (appending grow).grow t.buckets.length t.entries.length with
    | none => exact range_put_appending grow t hk
    | some n =>
      rw [← HashTable.range_rehash t n k]
      exact range_put_appending grow (t.rehash n) hk
  rw [← h]
  unfold tableValues HeaderTable.addHeader
  rw [hrange, List.map_append]
  rfl

end table

/-! ## The dictionary -/

section message

variable {x : Externals}

/-- One call, to a message. -/
theorem runMessage_represents (m : HttpMessage) (model : Bytes → List Bytes) (c : HeaderCall)
    (h : Represents List.Perm m.headers.equalRange model) :
    Represents List.Perm (c.runMessage x m).headers.equalRange (c.runModel model) := by
  cases c with
  | add key value =>
    refine represents_update h ?_ ?_
    · intro k hk
      have hinsert : ((x.insert m.headers (key, value)).equalRange k).Perm
          (value :: m.headers.equalRange k) := by
        rw [← equalRange_cons_self (e := (key, value)) hk]
        exact insert_equalRange m.headers (key, value) k
      rw [foldCase_eq.mp hk]
      exact hinsert.trans (((h k).cons value).trans (List.perm_append_singleton value _).symm)
    · intro k hk hold
      have hinsert := insert_equalRange (x := x) m.headers (key, value) k
      rw [equalRange_cons_other hk] at hinsert
      exact hinsert.trans hold
  | change key value =>
    refine represents_update h ?_ ?_
    · intro k hk
      show ((m.headers.changeValue x key value).equalRange k).Perm [value]
      rw [← equalRange_congr _ hk, changeValue_equalRange]
    · exact fun k hk hold => (changeValue_equalRange_other hk m.headers value).trans hold
  | delete key =>
    refine represents_update h ?_ ?_
    · intro k hk
      show ((m.headers.deleteValue key).equalRange k).Perm []
      rw [deleteValue_equalRange_self hk]
    · intro k hk hold
      show ((m.headers.deleteValue key).equalRange k).Perm _
      rw [deleteValue_equalRange_other hk]
      exact hold

end message

/--
**Headers behave as a multimap without case.** Keys that are equal have the same hash, so that
after any calls the hash table has for each key, in any spelling, the values that the model has
for its name: the same list if the library appends, else up to order. So has the dictionary of
a message.
-/
theorem headers_represent (pl : Platform) (lib : TableLibrary Bytes Bytes) (x : Externals) (n : Nat)
    (calls : List HeaderCall) :
    let model := calls.foldl HeaderCall.runModel fun _ => []
    (∀ a b, iequals a b = true → ihash pl a = ihash pl b) ∧
    (∀ key, (tableValues (calls.foldl (HeaderCall.runTable lib) (HashTable.empty (headerHashing pl) Bytes n))
      key).Perm (model (foldCase key))) ∧
    (∀ grow key, tableValues (calls.foldl (HeaderCall.runTable (appending grow))
      (HashTable.empty (headerHashing pl) Bytes n)) key = model (foldCase key)) ∧
    (∀ key, ((calls.foldl (HeaderCall.runMessage x) {}).headers.equalRange key).Perm
      (model (foldCase key))) := by
  intro model
  have hempty : ∀ key, tableValues (HashTable.empty (headerHashing pl) Bytes n) key = [] :=
    fun key => congrArg (List.map Prod.snd) (HashTable.range_empty n key)
  refine ⟨fun a b h => ihash_eq pl h, ?_, ?_, ?_⟩
  · refine foldl_represents tableValues (runTable_represents List.Perm.refl tableValues_add_perm) calls ?_
    exact fun key => by rw [hempty]
  · intro grow
    exact foldl_represents tableValues (runTable_represents (fun _ => rfl) (tableValues_add_appending grow))
      calls hempty
  · exact foldl_represents (fun m : HttpMessage => m.headers.equalRange) runMessage_represents calls
      fun key => List.Perm.refl []

end Pion.Proof
