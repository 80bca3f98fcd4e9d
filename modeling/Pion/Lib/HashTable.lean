import Mathlib.Data.List.Perm.Basic

/-!
# Hash tables

A table that may have several entries under one key. Keys need not be equal to be the same key;
it is enough that the test for it is an equivalence and that the same keys have the same hash.
An entry is only ever looked for in the bucket of its hash, and `range_eq` is what the table owes
its users: that no entry is anywhere else.

How many buckets there are, when they become more, and where in its bucket a new entry goes, is
up to the library.
-/

namespace Pion.Lib

/-- How keys are hashed and compared. -/
structure Hashing (κ : Type) where
  hash : κ → Nat
  same : κ → κ → Bool
  equiv : Equivalence fun a b => same a b = true
  hash_eq : ∀ a b, same a b = true → hash a = hash b

/-- What a library decides on its own. -/
structure TableLibrary (κ β : Type) where
  /-- Where in its bucket an entry goes. -/
  place : List (κ × β) → κ × β → List (κ × β)
  place_eq : ∀ b e, ∃ u v, b = u ++ v ∧ place b e = u ++ e :: v
  /-- How many buckets there are to be, before the next entry: one more than this. -/
  grow : (buckets entries : Nat) → Option Nat

structure HashTable {κ : Type} (K : Hashing κ) (β : Type) where
  buckets : List (List (κ × β))
  pos : 0 < buckets.length
  placed : ∀ i b, buckets[i]? = some b → ∀ e ∈ b, K.hash e.1 % buckets.length = i

variable {κ β : Type} {K : Hashing κ}

theorem Hashing.same_left {a b : κ} (h : K.same a b = true) (c : κ) : K.same a c = K.same b c := by
  cases hb : K.same b c with
  | true => exact K.equiv.trans h hb
  | false =>
    by_contra hne
    have ha : K.same a c = true := by simpa using hne
    rw [K.equiv.trans (K.equiv.symm h) ha] at hb
    cases hb

theorem Hashing.same_right {a b : κ} (h : K.same a b = true) (c : κ) : K.same c a = K.same c b := by
  have hsymm : ∀ x y, K.same x y = K.same y x := by
    intro x y
    cases hxy : K.same x y with
    | true => exact (K.equiv.symm hxy).symm
    | false =>
      by_contra hne
      have hyx : K.same y x = true := by simpa using (Ne.symm hne)
      rw [K.equiv.symm hyx] at hxy
      cases hxy
  rw [hsymm c a, hsymm c b, K.same_left h]

namespace HashTable

/-- Whether an entry is one of a key. -/
def isOf (K : Hashing κ) (k : κ) (e : κ × β) : Bool := K.same e.1 k

def index (t : HashTable K β) (k : κ) : Nat := K.hash k % t.buckets.length

theorem index_lt (t : HashTable K β) (k : κ) : t.index k < t.buckets.length := Nat.mod_lt _ t.pos

/-- The bucket that a key is looked for in. -/
def bucket (t : HashTable K β) (k : κ) : List (κ × β) := t.buckets.get ⟨t.index k, t.index_lt k⟩

/-- `equal_range`: the entries of a key. -/
def range (t : HashTable K β) (k : κ) : List (κ × β) := (t.bucket k).filter (isOf K k)

/-- All entries, bucket by bucket. -/
def entries (t : HashTable K β) : List (κ × β) := t.buckets.flatten

theorem getElem?_bucket (t : HashTable K β) (k : κ) : t.buckets[t.index k]? = some (t.bucket k) :=
  List.getElem?_eq_getElem (t.index_lt k)

theorem index_of_mem {t : HashTable K β} {k : κ} {e : κ × β} (h : e ∈ t.bucket k) :
    K.hash e.1 % t.buckets.length = t.index k :=
  t.placed _ _ (t.getElem?_bucket k) e h

theorem index_congr (t : HashTable K β) {k k' : κ} (h : K.same k k' = true) : t.index k = t.index k' := by
  unfold index
  rw [K.hash_eq k k' h]

theorem range_congr (t : HashTable K β) {k k' : κ} (h : K.same k k' = true) : t.range k = t.range k' := by
  have hbucket : t.bucket k = t.bucket k' := by
    unfold bucket
    simp only [t.index_congr h]
  unfold range
  rw [hbucket]
  exact congrArg (fun p => (t.bucket k').filter p) (funext fun e => K.same_right h e.1)

/-- **Every entry of a key is in its bucket.** -/
theorem range_eq (t : HashTable K β) (k : κ) : t.range k = t.entries.filter (isOf K k) := by
  have hother : ∀ i b, t.buckets[i]? = some b → i ≠ t.index k → b.filter (isOf K k) = [] := by
    intro i b hb hi
    rw [List.filter_eq_nil_iff]
    intro e he hsame
    exact hi ((t.placed i b hb e he).symm.trans (by rw [K.hash_eq _ _ hsame]; rfl))
  have hlist : ∀ (l : List (List (κ × β))) (j : Nat) (b : List (κ × β)), l[j]? = some b →
      (∀ i c, l[i]? = some c → i ≠ j → c.filter (isOf K k) = []) →
      l.flatten.filter (isOf K k) = b.filter (isOf K k) := by
    intro l
    induction l with
    | nil => exact fun j b hb _ => by cases hb
    | cons c l ih =>
      intro j b hb hnil
      rw [List.flatten_cons, List.filter_append]
      cases j with
      | zero =>
        obtain rfl := Option.some.inj hb
        have hrest : l.flatten.filter (isOf K k) = [] := by
          rw [List.filter_eq_nil_iff]
          intro e he
          obtain ⟨d, hd, hed⟩ := List.mem_flatten.mp he
          obtain ⟨i, hi⟩ := List.mem_iff_getElem?.mp hd
          exact List.filter_eq_nil_iff.mp (hnil (i + 1) d hi (Nat.succ_ne_zero i)) e hed
        rw [hrest, List.append_nil]
      | succ j =>
        rw [hnil 0 c rfl (Nat.succ_ne_zero j).symm, List.nil_append]
        exact ih j b hb fun i d hd hi => hnil (i + 1) d hd fun h => hi (Nat.succ.inj h)
  exact (hlist t.buckets (t.index k) (t.bucket k) (t.getElem?_bucket k) hother).symm

/-! ## Changing a bucket -/

/-- Put other entries into the bucket of a key. -/
def setBucket (t : HashTable K β) (k : κ) (b : List (κ × β))
    (hb : ∀ e ∈ b, K.hash e.1 % t.buckets.length = t.index k) : HashTable K β where
  buckets := t.buckets.set (t.index k) b
  pos := by rw [List.length_set]; exact t.pos
  placed := by
    intro i c hc e he
    rw [List.length_set]
    by_cases hi : t.index k = i
    · subst hi
      rw [List.getElem?_set_self (t.index_lt k)] at hc
      obtain rfl := Option.some.inj hc
      exact hb e he
    · rw [List.getElem?_set_ne hi] at hc
      exact t.placed i c hc e he

theorem index_setBucket {t : HashTable K β} {k : κ} {b : List (κ × β)}
    {hb : ∀ e ∈ b, K.hash e.1 % t.buckets.length = t.index k} (k' : κ) :
    (t.setBucket k b hb).index k' = t.index k' := by
  unfold index setBucket
  rw [List.length_set]

theorem bucket_setBucket {t : HashTable K β} {k : κ} {b : List (κ × β)}
    {hb : ∀ e ∈ b, K.hash e.1 % t.buckets.length = t.index k} {k' : κ} :
    (t.setBucket k b hb).bucket k' = if t.index k' = t.index k then b else t.bucket k' := by
  have h := (t.setBucket k b hb).getElem?_bucket k'
  rw [index_setBucket] at h
  by_cases hi : t.index k' = t.index k
  · rw [if_pos hi]
    rw [hi] at h
    exact (Option.some.inj ((List.getElem?_set_self (t.index_lt k)).symm.trans h)).symm
  · rw [if_neg hi]
    have hset : (t.buckets.set (t.index k) b)[t.index k']? = t.buckets[t.index k']? :=
      List.getElem?_set_ne fun h => hi h.symm
    exact (Option.some.inj ((t.getElem?_bucket k').symm.trans (hset.symm.trans h))).symm

/-- The range of the key itself. -/
theorem range_setBucket_self {t : HashTable K β} {k : κ} {b : List (κ × β)}
    {hb : ∀ e ∈ b, K.hash e.1 % t.buckets.length = t.index k} {k' : κ} (h : K.same k k' = true) :
    (t.setBucket k b hb).range k' = b.filter (isOf K k) := by
  rw [← range_congr _ h]
  unfold range
  rw [bucket_setBucket, if_pos rfl]

/-- **The range of another key** stays, if the entries of its own in the bucket do. -/
theorem range_setBucket_other {t : HashTable K β} {k : κ} {b : List (κ × β)}
    {hb : ∀ e ∈ b, K.hash e.1 % t.buckets.length = t.index k} {k' : κ}
    (h : b.filter (isOf K k') = (t.bucket k).filter (isOf K k')) :
    (t.setBucket k b hb).range k' = t.range k' := by
  unfold range
  rw [bucket_setBucket]
  by_cases hi : t.index k' = t.index k
  · have hbucket : t.bucket k' = t.bucket k := by
      unfold bucket
      simp only [hi]
    rw [if_pos hi, h, hbucket]
  · rw [if_neg hi]

/-- What becomes of a key that another key is not the same as. -/
theorem isOf_other {k k' : κ} (h : K.same k k' = false) {e : κ × β} (he : isOf K k e = true) :
    isOf K k' e = false := (K.same_left he k').trans h

/-! ## Adding entries -/

/-- Add an entry to its bucket. -/
def put (lib : TableLibrary κ β) (t : HashTable K β) (e : κ × β) : HashTable K β :=
  t.setBucket e.1 (lib.place (t.bucket e.1) e) (by
    obtain ⟨u, v, huv, hplace⟩ := lib.place_eq (t.bucket e.1) e
    intro f hf
    rw [hplace] at hf
    rcases List.mem_append.mp hf with hf | hf
    · exact index_of_mem (huv ▸ List.mem_append_left v hf)
    · rcases List.mem_cons.mp hf with rfl | hf
      · rfl
      · exact index_of_mem (huv ▸ List.mem_append_right u hf))

theorem range_put_self (lib : TableLibrary κ β) (t : HashTable K β) {e : κ × β} {k : κ}
    (h : K.same e.1 k = true) :
    ∃ u v, t.range k = u ++ v ∧ (t.put lib e).range k = u ++ e :: v := by
  obtain ⟨u, v, huv, hplace⟩ := lib.place_eq (t.bucket e.1) e
  have he : isOf K e.1 e = true := K.equiv.refl e.1
  refine ⟨u.filter (isOf K e.1), v.filter (isOf K e.1), ?_, ?_⟩
  · rw [← range_congr t h]
    unfold range
    rw [huv, List.filter_append]
  · unfold put
    rw [range_setBucket_self h, hplace, List.filter_append, List.filter_cons_of_pos he]

theorem range_put_other (lib : TableLibrary κ β) (t : HashTable K β) {e : κ × β} {k : κ}
    (h : K.same e.1 k = false) : (t.put lib e).range k = t.range k := by
  obtain ⟨u, v, huv, hplace⟩ := lib.place_eq (t.bucket e.1) e
  have he : ¬ isOf K k e = true := by
    rw [isOf, h]
    exact Bool.false_ne_true
  refine range_setBucket_other ?_
  rw [hplace, huv, List.filter_append, List.filter_append, List.filter_cons_of_neg he]

/-- As many buckets as the library wants, and one more. -/
def rehash (t : HashTable K β) (n : Nat) : HashTable K β where
  buckets := (List.range (n + 1)).map fun i => t.entries.filter fun e => K.hash e.1 % (n + 1) = i
  pos := by rw [List.length_map, List.length_range]; exact Nat.succ_pos n
  placed := by
    intro i b hb e he
    rw [List.length_map, List.length_range]
    rw [List.getElem?_map, Option.map_eq_some_iff] at hb
    obtain ⟨j, hj, rfl⟩ := hb
    obtain ⟨_, rfl⟩ := List.getElem?_eq_some_iff.mp hj
    rw [List.getElem_range] at he
    exact of_decide_eq_true (List.mem_filter.mp he).2

/-- **No entry is lost**, and those of a key keep their order. -/
theorem range_rehash (t : HashTable K β) (n : Nat) (k : κ) : (t.rehash n).range k = t.range k := by
  have hindex : (t.rehash n).index k = K.hash k % (n + 1) := by
    unfold index rehash
    rw [List.length_map, List.length_range]
  have hbucket : (t.rehash n).bucket k =
      t.entries.filter fun e => K.hash e.1 % (n + 1) = K.hash k % (n + 1) := by
    have h := (t.rehash n).getElem?_bucket k
    rw [hindex] at h
    have hlt : K.hash k % (n + 1) < n + 1 := Nat.mod_lt _ (Nat.succ_pos n)
    have hget : (t.rehash n).buckets[K.hash k % (n + 1)]? =
        some (t.entries.filter fun e => K.hash e.1 % (n + 1) = K.hash k % (n + 1)) := by
      unfold rehash
      rw [List.getElem?_map, List.getElem?_range hlt]
      rfl
    exact Option.some.inj (h.symm.trans hget)
  have hsame : ∀ e : κ × β, isOf K k e = true → K.hash e.1 = K.hash k := fun e he => K.hash_eq _ _ he
  rw [range_eq t k]
  unfold range
  rw [hbucket, List.filter_filter]
  refine List.filter_congr fun e _ => ?_
  cases he : isOf K k e with
  | true => rw [hsame e he]; simp
  | false => rw [Bool.false_and]

/-- `insert`. -/
def insert (lib : TableLibrary κ β) (t : HashTable K β) (e : κ × β) : HashTable K β :=
  match lib.grow t.buckets.length t.entries.length with
  | some n => (t.rehash n).put lib e
  | none => t.put lib e

/-- **An entry is added to those of its key**, at some place among them. -/
theorem range_insert_self (lib : TableLibrary κ β) (t : HashTable K β) {e : κ × β} {k : κ}
    (h : K.same e.1 k = true) :
    ∃ u v, t.range k = u ++ v ∧ (t.insert lib e).range k = u ++ e :: v := by
  unfold insert
  cases lib.grow t.buckets.length t.entries.length with
  | none => exact range_put_self lib t h
  | some n =>
    rw [← range_rehash t n k]
    exact range_put_self lib (t.rehash n) h

theorem range_insert_other (lib : TableLibrary κ β) (t : HashTable K β) {e : κ × β} {k : κ}
    (h : K.same e.1 k = false) : (t.insert lib e).range k = t.range k := by
  unfold insert
  cases lib.grow t.buckets.length t.entries.length with
  | none => exact range_put_other lib t h
  | some n => exact (range_put_other lib (t.rehash n) h).trans (range_rehash t n k)

/-! ## Working on a range -/

/-- Write a value through the first iterator of a range. -/
def setFirstOf (p : κ × β → Bool) (v : β) : List (κ × β) → List (κ × β)
  | [] => []
  | e :: l => if p e then (e.1, v) :: l else e :: setFirstOf p v l

/-- Erase the entry behind the first of a range. -/
def eraseSecondOf (p : κ × β → Bool) : List (κ × β) → List (κ × β)
  | [] => []
  | e :: l => if p e then e :: l.eraseP p else e :: eraseSecondOf p l

theorem filter_setFirstOf {k : κ} (v : β) (l : List (κ × β)) :
    (setFirstOf (isOf K k) v l).filter (isOf K k) = match l.filter (isOf K k) with
      | [] => []
      | e :: r => (e.1, v) :: r := by
  induction l with
  | nil => rfl
  | cons e l ih =>
    unfold setFirstOf
    by_cases he : isOf K k e = true
    · rw [if_pos he, List.filter_cons_of_pos he, List.filter_cons_of_pos (show isOf K k (e.1, v) = true from he)]
    · rw [if_neg he, List.filter_cons_of_neg he, List.filter_cons_of_neg he, ih]

theorem filter_eraseP {p : κ × β → Bool} (l : List (κ × β)) : (l.eraseP p).filter p = (l.filter p).tail := by
  induction l with
  | nil => rfl
  | cons e l ih =>
    by_cases he : p e = true
    · rw [List.eraseP_cons_of_pos he, List.filter_cons_of_pos he, List.tail_cons]
    · rw [List.eraseP_cons_of_neg he, List.filter_cons_of_neg he, List.filter_cons_of_neg he, ih]

theorem filter_eraseSecondOf {p : κ × β → Bool} (l : List (κ × β)) :
    (eraseSecondOf p l).filter p = match l.filter p with
      | [] => []
      | e :: r => e :: r.tail := by
  induction l with
  | nil => rfl
  | cons e l ih =>
    unfold eraseSecondOf
    by_cases he : p e = true
    · rw [if_pos he, List.filter_cons_of_pos he, List.filter_cons_of_pos he, filter_eraseP]
    · rw [if_neg he, List.filter_cons_of_neg he, List.filter_cons_of_neg he, ih]

/-- Work on the first entry of one range, and behind it, that leaves another range alone. -/
theorem filter_first_other {p q : κ × β → Bool} {f : List (κ × β) → List (κ × β)}
    {g : κ × β → List (κ × β) → List (κ × β)} (hnil : f [] = [])
    (hcons : ∀ e l, f (e :: l) = if p e then g e l else e :: f l)
    (hg : ∀ e l, p e = true → (g e l).filter q = (e :: l).filter q) (l : List (κ × β)) :
    (f l).filter q = l.filter q := by
  induction l with
  | nil => rw [hnil]
  | cons e l ih =>
    rw [hcons]
    by_cases he : p e = true
    · rw [if_pos he, hg e l he]
    · rw [if_neg he, List.filter_cons, List.filter_cons, ih]

theorem isOf_not_other {k k' : κ} (h : K.same k k' = false) {e : κ × β} (he : isOf K k e = true) :
    ¬ isOf K k' e = true := by
  rw [isOf_other h he]
  exact Bool.false_ne_true

theorem filter_setFirstOf_other {k k' : κ} (h : K.same k k' = false) (v : β) (l : List (κ × β)) :
    (setFirstOf (isOf K k) v l).filter (isOf K k') = l.filter (isOf K k') := by
  refine filter_first_other rfl (fun _ _ => rfl) (fun e l he => ?_) l
  have hother : ¬ isOf K k' e = true := isOf_not_other h he
  rw [List.filter_cons_of_neg hother, List.filter_cons_of_neg (show ¬ isOf K k' (e.1, v) = true from hother)]

theorem filter_eraseP_other {k k' : κ} (h : K.same k k' = false) (l : List (κ × β)) :
    (l.eraseP (isOf K k)).filter (isOf K k') = l.filter (isOf K k') := by
  refine filter_first_other (p := isOf K k) (g := fun _ l => l) rfl
    (fun e l => List.eraseP_cons.trans (Bool.cond_eq_ite _ _ _)) (fun e l he => ?_) l
  rw [List.filter_cons_of_neg (isOf_not_other h he)]

theorem filter_eraseSecondOf_other {k k' : κ} (h : K.same k k' = false) (l : List (κ × β)) :
    (eraseSecondOf (isOf K k) l).filter (isOf K k') = l.filter (isOf K k') := by
  refine filter_first_other rfl (fun _ _ => rfl) (fun e l _ => ?_) l
  rw [List.filter_cons, List.filter_cons, filter_eraseP_other h]

theorem key_of_mem_setFirstOf {p : κ × β → Bool} {v : β} {l : List (κ × β)} {e : κ × β}
    (he : e ∈ setFirstOf p v l) : ∃ f ∈ l, f.1 = e.1 := by
  induction l with
  | nil => cases he
  | cons f l ih =>
    unfold setFirstOf at he
    split at he
    · rcases List.mem_cons.mp he with rfl | he
      · exact ⟨f, List.mem_cons_self, rfl⟩
      · exact ⟨e, List.mem_cons_of_mem f he, rfl⟩
    · rcases List.mem_cons.mp he with rfl | he
      · exact ⟨e, List.mem_cons_self, rfl⟩
      · obtain ⟨g, hg, hkey⟩ := ih he
        exact ⟨g, List.mem_cons_of_mem f hg, hkey⟩

theorem eraseSecondOf_subset {p : κ × β → Bool} {l : List (κ × β)} : eraseSecondOf p l ⊆ l := by
  induction l with
  | nil => exact List.Subset.refl []
  | cons f l ih =>
    unfold eraseSecondOf
    split
    · exact List.cons_subset_cons f List.eraseP_subset
    · exact List.cons_subset_cons f ih

def setFirst (t : HashTable K β) (k : κ) (v : β) : HashTable K β :=
  t.setBucket k (setFirstOf (isOf K k) v (t.bucket k)) (by
    intro e he
    obtain ⟨f, hf, hkey⟩ := key_of_mem_setFirstOf he
    rw [← hkey]
    exact index_of_mem hf)

def eraseSecond (t : HashTable K β) (k : κ) : HashTable K β :=
  t.setBucket k (eraseSecondOf (isOf K k) (t.bucket k)) fun _ he => index_of_mem (eraseSecondOf_subset he)

/-- Erase a whole range. -/
def eraseRange (t : HashTable K β) (k : κ) : HashTable K β :=
  t.setBucket k ((t.bucket k).filter fun e => !isOf K k e) fun _ he =>
    index_of_mem (List.mem_of_mem_filter he)

theorem range_setFirst_self (t : HashTable K β) {k k' : κ} (h : K.same k k' = true) (v : β) :
    (t.setFirst k v).range k' = match t.range k with
      | [] => []
      | e :: r => (e.1, v) :: r :=
  (range_setBucket_self h).trans (filter_setFirstOf v (t.bucket k))

theorem range_setFirst_other (t : HashTable K β) {k k' : κ} (h : K.same k k' = false) (v : β) :
    (t.setFirst k v).range k' = t.range k' :=
  range_setBucket_other (filter_setFirstOf_other h v (t.bucket k))

theorem range_eraseSecond_self (t : HashTable K β) {k k' : κ} (h : K.same k k' = true) :
    (t.eraseSecond k).range k' = match t.range k with
      | [] => []
      | e :: r => e :: r.tail :=
  (range_setBucket_self h).trans (filter_eraseSecondOf (t.bucket k))

theorem range_eraseSecond_other (t : HashTable K β) {k k' : κ} (h : K.same k k' = false) :
    (t.eraseSecond k).range k' = t.range k' :=
  range_setBucket_other (filter_eraseSecondOf_other h (t.bucket k))

theorem range_eraseRange_self (t : HashTable K β) {k k' : κ} (h : K.same k k' = true) :
    (t.eraseRange k).range k' = [] := by
  refine (range_setBucket_self h).trans ?_
  rw [List.filter_filter, List.filter_eq_nil_iff]
  intro e _ he
  simp at he

theorem range_eraseRange_other (t : HashTable K β) {k k' : κ} (h : K.same k k' = false) :
    (t.eraseRange k).range k' = t.range k' := by
  refine range_setBucket_other ?_
  rw [List.filter_filter]
  refine List.filter_congr fun e _ => ?_
  cases he : isOf K k e with
  | true => rw [isOf_other h he]; rfl
  | false => rw [Bool.not_false, Bool.and_true]

/-- A table without entries. -/
def empty (K : Hashing κ) (β : Type) (n : Nat) : HashTable K β where
  buckets := List.replicate (n + 1) []
  pos := by rw [List.length_replicate]; exact Nat.succ_pos n
  placed := by
    intro i b hb e he
    rw [List.eq_of_mem_replicate (List.mem_of_getElem? hb)] at he
    cases he

theorem range_empty (n : Nat) (k : κ) : (empty K β n).range k = [] := by
  rw [range_eq, List.filter_eq_nil_iff]
  intro e he
  obtain ⟨b, hb, he⟩ := List.mem_flatten.mp he
  rw [List.eq_of_mem_replicate hb] at he
  cases he

end HashTable

end Pion.Lib
