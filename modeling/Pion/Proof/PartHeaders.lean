import Pion.Lib.Machine
import Pion.Proof.Multipart

/-!
# The headers of a part, line by line

The states that `parse_multipart_form_data` goes through in the headers of a part, told by the
lines that it has read. Lines may end in CRLF or in LF alone, and need not be headers.

A line without a value, or without a colon, is not forgotten: `header_name` still has its name
when the next line begins, and grows. So a blank line behind it does not end the headers.
-/

namespace Pion.Proof

open Pion Lib

open FormPart (LineByte)

variable {x : Externals} {data b : Bytes}

/-! ## One line -/

/-- What a line has in front of its colon; all of it, if there is none. -/
def lineName (l : Bytes) : Bytes := l.takeWhile (· ≠ colon)

/-- What it has behind the colon and the spaces. -/
def lineValue (l : Bytes) : Bytes := (l.drop ((lineName l).length + 1)).dropWhile (· = sp)

/-- `Content-Type` begins with `text/`. -/
def isText (value : Bytes) : Bool := iequals (value.take 5) (str "text/")

/-- The name that a disposition gives to the field. -/
def nameIn (value : Bytes) : Bytes :=
  match findSub (str "name=\"") value with
  | some i => (value.drop (i + 6)).takeWhile (· ≠ quote)
  | none => []

/-- What the lines of a part have told. -/
structure PartReading where
  /-- The names of the lines in front that have no value. -/
  carry : Bytes := []
  fieldName : Bytes := []
  save : Bool := true
  deriving DecidableEq

namespace PartReading

/-- A header. -/
def header (r : PartReading) (name value : Bytes) : PartReading :=
  if iequals name headerContentType then { r with save := isText value }
  else if iequals name headerContentDisposition then { r with fieldName := r.fieldName ++ nameIn value }
  else r

/-- A line. Its name has those of the lines without a value in front. -/
def line (r : PartReading) (l : Bytes) : PartReading :=
  if lineValue l = [] then { r with carry := r.carry ++ lineName l }
  else { r.header (r.carry ++ lineName l) (lineValue l) with carry := [] }

/-- A blank line ends the headers if no name is left over. -/
def Blank (r : PartReading) (l : Bytes) : Prop := r.carry = [] ∧ l = []

instance (r : PartReading) (l : Bytes) : Decidable (r.Blank l) := inferInstanceAs (Decidable (_ ∧ _))

/-- A field that is recorded. -/
def Kept (r : PartReading) : Prop := r.save = true ∧ r.fieldName ≠ []

instance (r : PartReading) : Decidable r.Kept := inferInstanceAs (Decidable (_ ∧ _))

end PartReading

theorem lineName_of_not_mem {l : Bytes} (h : colon ∉ l) : lineName l = l :=
  List.takeWhile_eq_self_iff.mpr fun _ hc => decide_eq_true fun he => h (he ▸ hc)

theorem lineValue_of_not_mem {l : Bytes} (h : colon ∉ l) : lineValue l = [] := by
  unfold lineValue
  rw [lineName_of_not_mem h, List.drop_eq_nil_of_le (Nat.le_succ _)]
  rfl

/-- A line is its name, the colon, and more. -/
theorem line_split {l : Bytes} (h : colon ∈ l) :
    l = lineName l ++ colon :: l.drop ((lineName l).length + 1) ∧ colon ∉ lineName l := by
  induction l with
  | nil => cases h
  | cons c l ih =>
    by_cases hc : c = colon
    · subst hc
      exact ⟨rfl, List.not_mem_nil⟩
    · obtain ⟨hl, hname⟩ := ih ((List.mem_cons.mp h).resolve_left fun he => hc he.symm)
      have hcons : lineName (c :: l) = c :: lineName l :=
        List.takeWhile_cons_of_pos (decide_eq_true hc)
      rw [hcons]
      refine ⟨congrArg (c :: ·) hl, ?_⟩
      intro hmem
      exact (List.mem_cons.mp hmem).elim (fun he => hc he.symm) hname

theorem lineName_colon {n : Bytes} (hn : colon ∉ n) (v : Bytes) : lineName (n ++ colon :: v) = n :=
  takeWhile_ne_append hn v

theorem lineValue_colon {n : Bytes} (hn : colon ∉ n) (v : Bytes) :
    lineValue (n ++ colon :: v) = v.dropWhile (· = sp) := by
  unfold lineValue
  rw [lineName_colon hn, ← List.drop_drop, List.drop_left]
  rfl

/-- One more byte behind the colon. -/
theorem line_snoc {l : Bytes} (h : colon ∈ l) (c : UInt8) : lineName (l ++ [c]) = lineName l ∧
    lineValue (l ++ [c]) = if lineValue l = [] ∧ c = sp then [] else lineValue l ++ [c] := by
  obtain ⟨hl, hn⟩ := line_split h
  generalize hv : l.drop ((lineName l).length + 1) = v at hl
  generalize lineName l = n at hl hn
  subst hl
  rw [List.append_assoc, List.cons_append, lineName_colon hn, lineValue_colon hn, lineValue_colon hn]
  refine ⟨rfl, ?_⟩
  clear hv h
  induction v with
  | nil =>
    by_cases hc : c = sp
    · simp [hc]
    · simp [hc]
  | cons e v ih =>
    by_cases he : e = sp
    · simpa [he] using ih
    · simp [he]

/-! ## The states of the loop -/

/-- Where the loop is in a line. -/
def inLineState (l : Bytes) : MultiPartParseState :=
  if colon ∈ l then if lineValue l = [] then .headerSpace else .headerValue else .headerName

/-- The state behind some bytes of a line. -/
def inLine (r : PartReading) (l : Bytes) (f : Bool) (d : Dict) (p : Nat) : MultiPart :=
  ⟨inLineState l, r.carry ++ lineName l, lineValue l, r.fieldName, f, r.save, d, p⟩

/-- The state between lines. -/
def betweenLines (st : MultiPartParseState) (r : PartReading) (f : Bool) (d : Dict) (p : Nat) : MultiPart :=
  ⟨st, r.carry, [], r.fieldName, f, r.save, d, p⟩

theorem inLine_nil (r : PartReading) (f : Bool) (d : Dict) (p : Nat) :
    inLine r [] f d p = betweenLines .headerName r f d p := by
  unfold inLine betweenLines
  rw [show lineName [] = [] from rfl, List.append_nil]
  rfl

/-- **One byte of a line.** -/
theorem step_inLine (r : PartReading) (l : Bytes) (f : Bool) (d : Dict) (p : Nat) {c : UInt8} (hc : LineByte c) :
    multiPartStep x data b (inLine r l f d p) c = .inl (inLine r (l ++ [c]) f d (p + 1)) := by
  have hend : ¬ (c = cr ∨ c = lf) := fun h => h.elim hc.1 hc.2
  unfold multiPartStep inLine inLineState
  by_cases hcolon : colon ∈ l
  · obtain ⟨hname, hvalue⟩ := line_snoc hcolon c
    have hmem : colon ∈ l ++ [c] := List.mem_append_left _ hcolon
    have hne : lineValue l ++ [c] ≠ [] := List.append_ne_nil_of_right_ne_nil _ (List.cons_ne_nil c [])
    rw [if_pos hcolon, if_pos hmem, hname]
    by_cases hv : lineValue l = []
    · by_cases hsp : c = sp
      · rw [if_pos ⟨hv, hsp⟩] at hvalue
        rw [if_pos hv, if_pos hvalue, hvalue, hv]
        dsimp only
        rw [if_neg hc.1, if_neg hc.2, if_neg (not_not_intro hsp)]
        rfl
      · rw [if_neg fun h => hsp h.2] at hvalue
        rw [if_pos hv, hvalue, if_neg hne]
        dsimp only
        rw [if_neg hc.1, if_neg hc.2, if_pos hsp]
        rfl
    · rw [if_neg fun h => hv h.1] at hvalue
      rw [if_neg hv, hvalue, if_neg hne]
      dsimp only
      rw [if_neg hend]
      rfl
  · rw [if_neg hcolon, lineName_of_not_mem hcolon, lineValue_of_not_mem hcolon]
    dsimp only
    rw [if_neg hend]
    by_cases hc' : c = colon
    · subst hc'
      rw [if_pos rfl, lineName_colon hcolon, lineValue_colon hcolon, if_pos (by simp)]
      rfl
    · have hmem : colon ∉ l ++ [c] := by
        intro h
        exact (List.mem_append.mp h).elim hcolon fun h => hc' (List.mem_singleton.mp h).symm
      rw [if_neg hc', if_neg hmem, lineName_of_not_mem hmem, lineValue_of_not_mem hmem, ← List.append_assoc]
      rfl

/-- What the end of a value does is done by `header`. -/
theorem endOfValue_inLine (r : PartReading) (n v : Bytes) (st : MultiPartParseState) (f : Bool) (d : Dict)
    (p : Nat) : (⟨st, n, v, r.fieldName, f, r.save, d, p⟩ : MultiPart).endOfValue =
      ⟨st, [], [], (r.header n v).fieldName, f, (r.header n v).save, d, p⟩ := by
  unfold MultiPart.endOfValue PartReading.header nameIn isText
  dsimp only
  split_ifs
  · rfl
  · cases findSub (str "name=\"") v with
    | none => simp
    | some i => rfl
  · rfl

/-- **The end of a line** that does not end the headers. -/
theorem step_endOfLine {r : PartReading} {l : Bytes} (h : ¬ r.Blank l) (f : Bool) (d : Dict) (p : Nat)
    {c : UInt8} (hc : c = cr ∨ c = lf) :
    multiPartStep x data b (inLine r l f d p) c =
      .inl (betweenLines (if c = cr then .headerLf else .headerName) (r.line l) f d (p + 1)) := by
  unfold multiPartStep inLine inLineState betweenLines PartReading.line
  by_cases hcolon : colon ∈ l
  · rw [if_pos hcolon]
    by_cases hv : lineValue l = []
    · rw [if_pos hv, if_pos hv]
      dsimp only
      rcases hc with rfl | rfl
      · rw [if_pos rfl, hv]
        rfl
      · rw [if_neg (by decide), if_pos rfl, hv]
        rfl
    · rw [if_neg hv, if_neg hv]
      dsimp only
      rw [if_pos hc, endOfValue_inLine]
      rfl
  · rw [if_neg hcolon, lineValue_of_not_mem hcolon, if_pos rfl, lineName_of_not_mem hcolon]
    dsimp only
    rw [if_pos hc, if_neg]
    · rfl
    · intro hnil
      exact h (List.append_eq_nil_iff.mp hnil)

/-- The blank line that ends them. -/
theorem step_blank {r : PartReading} {l : Bytes} (h : r.Blank l) (f : Bool) (d : Dict) (p : Nat)
    {c : UInt8} (hc : c = cr ∨ c = lf) :
    multiPartStep x data b (inLine r l f d p) c =
      .inl (betweenLines (if c = cr then .headerLastLf else .fieldData) r f d (p + 1)) := by
  obtain ⟨hcarry, rfl⟩ := h
  rw [inLine_nil]
  unfold multiPartStep betweenLines
  dsimp only
  rw [if_pos hc, if_pos hcarry]
  rfl

end Pion.Proof
