import Pion.HttpMessage
import Pion.Lib.HashTable

/-!
# The headers as a hash table

`ihash` and `iequal_to`, and what the functions of `http_message` do to an `unordered_multimap`
that is made with them, iterator by iterator. Elsewhere, headers are a `Dict`.

Whether a `char` has a sign is up to the platform, and so is `std::hash<int>`: they are arguments.
-/

namespace Pion

open Lib

/-- What the platform decides about `char` and `int`. -/
structure Platform where
  /-- A `char` as an `int`. -/
  promote : UInt8 → Int
  /-- `std::hash<int>`. -/
  hashInt : Int → UInt64

/-- `hash_combine` of a seed and an `int`. -/
def hashCombine (pl : Platform) (seed : UInt64) (v : Int) : UInt64 :=
  seed ^^^ (pl.hashInt v + 0x9e3779b9 + (seed <<< (6 : UInt64)) + (seed >>> (2 : UInt64)))

/-- `ihash`: upper case letters in place of lower case ones, one after the other. -/
def ihash (pl : Platform) (x : Bytes) : UInt64 :=
  x.foldl (fun seed c => hashCombine pl seed (pl.promote (toUpper c))) 0

/-- **Keys that are equal have the same hash.** -/
theorem ihash_eq (pl : Platform) {a b : Bytes} (h : iequals a b = true) : ihash pl a = ihash pl b := by
  have hfold : ∀ s : Bytes, ihash pl s =
      (s.map toUpper).foldl (fun seed c => hashCombine pl seed (pl.promote c)) 0 := by
    intro s
    rw [List.foldl_map]
    rfl
  rw [hfold, hfold, iequals_iff.mp h]

/-- Keys of headers. -/
def headerHashing (pl : Platform) : Hashing Bytes where
  hash s := (ihash pl s).toNat
  same := iequals
  equiv := ⟨fun _ => iequals_iff.mpr rfl, fun h => iequals_iff.mpr (iequals_iff.mp h).symm,
    fun h h' => iequals_iff.mpr ((iequals_iff.mp h).trans (iequals_iff.mp h'))⟩
  hash_eq := fun _ _ h => congrArg UInt64.toNat (ihash_eq pl h)

/-- The container of the headers. -/
abbrev HeaderTable (pl : Platform) := HashTable (headerHashing pl) Bytes

namespace HeaderTable

variable {pl : Platform} (lib : TableLibrary Bytes Bytes)

/-- `add_header`. -/
def addHeader (t : HeaderTable pl) (key value : Bytes) : HeaderTable pl := t.insert lib (key, value)

/-- `change_value`. The loop erases all entries behind the first, one in each pass. -/
def changeHeader (t : HeaderTable pl) (key value : Bytes) : HeaderTable pl :=
  match t.range key with
  | [] => t.insert lib (key, value)
  | _ :: rest => rest.foldl (fun t _ => t.eraseSecond key) (t.setFirst key value)

/-- `delete_value`. -/
def deleteHeader (t : HeaderTable pl) (key : Bytes) : HeaderTable pl :=
  if t.range key = [] then t else t.eraseRange key

end HeaderTable

end Pion
