import Mathlib.Data.List.TakeWhile
import Pion.Lib.Splitting
import Pion.Proof.HeaderRun

/-!
# Query strings

`parse_url_encoded` reads bytes with two buffers. What it is for can be said without
them: a query string is a list of segments separated by `&`, a segment is a name and
perhaps, behind the first `=`, a list of values separated by commas.
-/

namespace Pion.Proof

open Pion Lib

variable {x : Externals}

/-! ## What a query string means -/

/-- Line ends and tabs count for nothing. -/
def Significant (c : UInt8) : Prop := ¬ (c = cr ∨ c = lf ∨ c = tab)

instance : DecidablePred Significant := fun c => inferInstanceAs (Decidable (¬ (c = cr ∨ c = lf ∨ c = tab)))

/-- The bytes that count. -/
def unfolded (data : Bytes) : Bytes := data.filter fun c => Significant c

/-- The text in front of the first `=`, or the whole segment. -/
def segmentName (seg : Bytes) : Bytes := seg.takeWhile (· ≠ equals)

/-- The values behind the first `=`, if there is one. -/
def segmentValues (seg : Bytes) : Option (List Bytes) :=
  match seg.dropWhile (· ≠ equals) with
  | [] => none
  | _ :: values => some (values.splitOn comma)

/-- The pairs of a segment; without a `=` the value is `absent`. -/
def segmentPairs (decode : Bytes → Bytes) (absent : Bytes) (seg : Bytes) : List (Bytes × Bytes) :=
  if segmentName seg = [] then []
  else
    match segmentValues seg with
    | none => [(decode (segmentName seg), absent)]
    | some values => values.map fun v => (decode (segmentName seg), decode v)

/-- The pairs of a query string, in order. -/
def queryPairs (decode : Bytes → Bytes) (absent : Bytes) (s : Bytes) : List (Bytes × Bytes) :=
  (s.splitOn ampersand).flatMap (segmentPairs decode absent)

/-! ## Segments -/

theorem plain_of_not_mem {w : Bytes} (h : equals ∉ w) : ∀ c ∈ w, decide (c ≠ equals) = true := by
  intro c hc
  rw [decide_eq_true_eq]
  rintro rfl
  exact h hc

/-- The two sides of the first `=`. -/
theorem segment_split {name : Bytes} (hname : equals ∉ name) (values : Bytes) :
    segmentName (name ++ equals :: values) = name ∧
      segmentValues (name ++ equals :: values) = some (values.splitOn comma) := by
  have hplain := plain_of_not_mem hname
  constructor
  · unfold segmentName
    rw [List.takeWhile_append_of_pos hplain, List.takeWhile_cons_of_neg (by simp), List.append_nil]
  · unfold segmentValues
    rw [List.dropWhile_append_of_pos hplain, List.dropWhile_cons_of_neg (by simp)]

/-- A segment without `=`, or the two sides of the first one. -/
theorem segment_cases (seg : Bytes) :
    (equals ∉ seg ∧ segmentName seg = seg ∧ segmentValues seg = none) ∨
      ∃ name values, seg = name ++ equals :: values ∧ equals ∉ name ∧ segmentName seg = name ∧
        segmentValues seg = some (values.splitOn comma) := by
  by_cases h : equals ∈ seg
  · obtain ⟨name, values, rfl, hname⟩ := List.eq_append_cons_of_mem h
    obtain ⟨hn, hv⟩ := segment_split hname values
    exact .inr ⟨name, values, rfl, hname, hn, hv⟩
  · have hplain := plain_of_not_mem h
    refine .inl ⟨h, List.takeWhile_eq_self_iff.mpr hplain, ?_⟩
    unfold segmentValues
    rw [List.dropWhile_eq_nil_iff.mpr hplain]

/-- No control byte, and not too long. -/
def Fits (limit : Nat) (w : Bytes) : Prop := (∀ c ∈ w, isControl c = false) ∧ w.length ≤ limit

theorem Fits.nil (limit : Nat) : Fits limit [] := ⟨by simp, Nat.zero_le _⟩

theorem Fits.left {limit : Nat} {u v : Bytes} (h : Fits limit (u ++ v)) : Fits limit u := by
  obtain ⟨hall, hlen⟩ := h
  rw [List.length_append] at hlen
  exact ⟨fun c hc => hall c (List.mem_append_left v hc), by omega⟩

/-- The test that the loop makes in front of each byte. -/
theorem Fits.snoc_iff {limit : Nat} {u : Bytes} {c : UInt8} (h : Fits limit u) :
    Fits limit (u ++ [c]) ↔ ¬ (isControl c = true ∨ u.length ≥ limit) := by
  unfold Fits
  rw [List.length_append, List.length_singleton, not_or, Bool.not_eq_true]
  constructor
  · intro hs
    exact ⟨hs.1 c (by simp), by omega⟩
  · intro hs
    refine ⟨?_, by omega⟩
    intro d hd
    rcases List.mem_append.mp hd with hd | hd
    · exact h.1 d hd
    · rw [List.mem_singleton.mp hd]
      exact hs.1

/-- A segment that `parse_url_encoded` can read. -/
def SegmentFits (seg : Bytes) : Prop :=
  Fits queryNameMax (segmentName seg) ∧
    ∀ values ∈ segmentValues seg, ∀ v ∈ values, Fits queryValueMax v

/-! ## The loop -/

/-- What is skipped leaves no trace. -/
theorem parseUrlEncodedLoop_unfolded : ∀ (data : Bytes) (st : QueryParseState) (name value : Bytes)
    (d : Dict), parseUrlEncodedLoop x st name value d data =
      parseUrlEncodedLoop x st name value d (unfolded data) := by
  intro data
  induction data with
  | nil => intros; rfl
  | cons c cs ih =>
    intro st name value d
    unfold unfolded at ih ⊢
    by_cases hc : c = cr ∨ c = lf ∨ c = tab
    · have hskipped : ¬ Significant c := fun h => h hc
      have hskip : c ≠ equals ∧ c ≠ ampersand ∧ c ≠ comma := by
        rcases hc with rfl | rfl | rfl <;> decide
      rw [List.filter_cons_of_neg (by simpa using hskipped), ← ih]
      cases st with
      | parseName => rw [parseUrlEncodedLoop, if_neg hskip.1, if_neg hskip.2.1, if_pos hc]
      | parseValue => rw [parseUrlEncodedLoop, if_neg hskip.2.1, if_neg hskip.2.2, if_pos hc]
    · have hcounts : Significant c := hc
      rw [List.filter_cons_of_pos (by simpa using hcounts)]
      cases st with
      | parseName => rw [parseUrlEncodedLoop, parseUrlEncodedLoop]; simp only [ih]
      | parseValue => rw [parseUrlEncodedLoop, parseUrlEncodedLoop]; simp only [ih]

/-- What comes behind a segment: the end, or a `&` and the next one. -/
def nextSegment (x : Externals) (d : Dict) : Bytes → Dict × Bool
  | [] => (d, true)
  | _ :: rest => parseUrlEncodedLoop x .parseName [] [] d rest

/-- The end of the text, or a separator. -/
def EndsAt (a : UInt8) (rest : Bytes) : Prop := rest = [] ∨ ∃ cs, rest = a :: cs

/-- Each byte is tested, and then joins what has been read. -/
theorem collect {limit : Nat} {d : Dict} {w : Bytes} (f : Bytes → Bytes → Dict × Bool) (rest : Bytes)
    (hstep : ∀ u c v, w = u ++ c :: v → ∀ cs, f u (c :: cs) =
      if isControl c ∨ u.length ≥ limit then (d, false) else f (u ++ [c]) cs) :
    (Fits limit w → f [] (w ++ rest) = f w rest) ∧
      (¬ Fits limit w → (f [] (w ++ rest)).2 = false) := by
  refine take_or_fail (fun r => r.2 = false) f rest (Fits.nil limit) (fun _ _ => Fits.left) ?_ ?_
  · intro u c v hw hfits cs
    rw [hstep u c v hw cs, if_neg (hfits.left.snoc_iff.mp hfits)]
  · intro u c v hw hu hfits cs
    rw [hu.snoc_iff, not_not] at hfits
    rw [hstep u c v hw cs, if_pos hfits]

/-- A name, as far as its `=` or the end of the segment. -/
theorem readQueryName {d : Dict} {w : Bytes} (hcounts : ∀ c ∈ w, Significant c) (heq : equals ∉ w)
    (hamp : ampersand ∉ w) (rest : Bytes) :
    (Fits queryNameMax w → parseUrlEncodedLoop x .parseName [] [] d (w ++ rest) =
        parseUrlEncodedLoop x .parseName w [] d rest) ∧
      (¬ Fits queryNameMax w → (parseUrlEncodedLoop x .parseName [] [] d (w ++ rest)).2 = false) := by
  refine collect (d := d) (fun u cs => parseUrlEncodedLoop x .parseName u [] d cs) rest ?_
  rintro u c v rfl cs
  have hne : c ≠ equals ∧ c ≠ ampersand := by
    constructor
    · rintro rfl; exact heq (by simp)
    · rintro rfl; exact hamp (by simp)
  rw [parseUrlEncodedLoop, if_neg hne.1, if_neg hne.2, if_neg (hcounts c (by simp))]

/-- One value, as far as its comma or the end of the segment. -/
theorem readQueryValue (name : Bytes) {d : Dict} {w : Bytes} (hcounts : ∀ c ∈ w, Significant c)
    (hamp : ampersand ∉ w) (hcomma : comma ∉ w) (rest : Bytes) :
    (Fits queryValueMax w → parseUrlEncodedLoop x .parseValue name [] d (w ++ rest) =
        parseUrlEncodedLoop x .parseValue name w d rest) ∧
      (¬ Fits queryValueMax w →
        (parseUrlEncodedLoop x .parseValue name [] d (w ++ rest)).2 = false) := by
  refine collect (d := d) (fun u cs => parseUrlEncodedLoop x .parseValue name u d cs) rest ?_
  rintro u c v rfl cs
  have hne : c ≠ ampersand ∧ c ≠ comma := by
    constructor
    · rintro rfl; exact hamp (by simp)
    · rintro rfl; exact hcomma (by simp)
  rw [parseUrlEncodedLoop, if_neg hne.1, if_neg hne.2, if_neg (hcounts c (by simp))]

/-- The values of a segment, each of them a pair with its name. -/
theorem readQueryValues (name : Bytes) {rest : Bytes} (hrest : EndsAt ampersand rest) : ∀ (values : Bytes)
    (d : Dict), (∀ c ∈ values, Significant c) → ampersand ∉ values →
    ((∀ v ∈ values.splitOn comma, Fits queryValueMax v) →
      parseUrlEncodedLoop x .parseValue name [] d (values ++ rest) =
        nextSegment x ((values.splitOn comma).foldl (fun d v => insertQuery x d name v) d) rest) ∧
      (¬ (∀ v ∈ values.splitOn comma, Fits queryValueMax v) →
        (parseUrlEncodedLoop x .parseValue name [] d (values ++ rest)).2 = false) := by
  intro values
  induction values using split_induction comma with
  | last w hw =>
    intro d hcounts hamp
    rw [List.splitOn_eq_singleton hw, List.forall_mem_singleton, List.foldl_cons, List.foldl_nil]
    obtain ⟨hgood, hbad⟩ := readQueryValue (x := x) name (d := d) hcounts hamp hw rest
    refine ⟨fun hfits => ?_, hbad⟩
    rw [hgood hfits]
    rcases hrest with rfl | ⟨cs, rfl⟩
    · rw [parseUrlEncodedLoop, nextSegment]
    · rw [parseUrlEncodedLoop, if_pos rfl, nextSegment]
  | next w text hw ih =>
    intro d hcounts hamp
    rw [List.forall_mem_append, List.forall_mem_cons] at hcounts
    rw [List.mem_append, List.mem_cons, not_or, not_or] at hamp
    rw [List.splitOn_append_cons_self_of_not_mem hw, List.forall_mem_cons, List.foldl_cons,
      List.append_assoc, List.cons_append]
    obtain ⟨hgood, hbad⟩ := readQueryValue (x := x) name (d := d) hcounts.1 hamp.1 hw
      (comma :: (text ++ rest))
    by_cases hfits : Fits queryValueMax w
    · obtain ⟨hgood', hbad'⟩ := ih (insertQuery x d name w) hcounts.2.2 hamp.2.2
      rw [hgood hfits, parseUrlEncodedLoop, if_neg (by decide), if_pos rfl]
      exact ⟨fun h => hgood' h.2, fun h => hbad' fun h' => h ⟨hfits, h'⟩⟩
    · exact ⟨fun h => absurd h.1 hfits, fun _ => hbad hfits⟩

/-- The insertions of a segment. -/
theorem insertQuery_values (d : Dict) (name : Bytes) (values : List Bytes) :
    values.foldl (fun d v => insertQuery x d name v) d =
      (if name = [] then [] else values.map fun v => (x.urlDecode name, x.urlDecode v)).foldl
        x.insert d := by
  unfold insertQuery
  split
  · rw [List.foldl_fixed, List.foldl_nil]
  · rw [List.foldl_map]

/-- **One segment.** -/
theorem readSegment {rest : Bytes} (hrest : EndsAt ampersand rest) {seg : Bytes} (d : Dict)
    (hcounts : ∀ c ∈ seg, Significant c) (hamp : ampersand ∉ seg) :
    (SegmentFits seg → parseUrlEncodedLoop x .parseName [] [] d (seg ++ rest) =
        nextSegment x ((segmentPairs x.urlDecode (x.urlDecode []) seg).foldl x.insert d) rest) ∧
      (¬ SegmentFits seg → (parseUrlEncodedLoop x .parseName [] [] d (seg ++ rest)).2 = false) := by
  unfold SegmentFits segmentPairs
  rcases segment_cases seg with ⟨heq, hname, hvalues⟩ | ⟨name, values, rfl, heq, hname, hvalues⟩
  · obtain ⟨hgood, hbad⟩ := readQueryName (x := x) (d := d) hcounts heq hamp rest
    rw [hname, hvalues]
    refine ⟨fun h => ?_, fun h => hbad fun hfits => h ⟨hfits, by simp⟩⟩
    rw [hgood h.1]
    have hins := insertQuery_values (x := x) d seg [[]]
    rw [List.foldl_cons, List.foldl_nil, List.map_singleton] at hins
    rcases hrest with rfl | ⟨cs, rfl⟩
    · rw [parseUrlEncodedLoop, nextSegment, hins]
    · rw [parseUrlEncodedLoop, if_neg (by decide), if_pos rfl, nextSegment, hins]
  · rw [List.forall_mem_append, List.forall_mem_cons] at hcounts
    rw [List.mem_append, List.mem_cons, not_or, not_or] at hamp
    rw [hname, hvalues, List.append_assoc, List.cons_append]
    obtain ⟨hgood, hbad⟩ := readQueryName (x := x) (d := d) hcounts.1 heq hamp.1
      (equals :: (values ++ rest))
    by_cases hfits : Fits queryNameMax name
    · obtain ⟨hgood', hbad'⟩ := readQueryValues (x := x) name hrest values d hcounts.2.2 hamp.2.2
      rw [hgood hfits, parseUrlEncodedLoop, if_pos rfl]
      constructor
      · intro h
        rw [hgood' (h.2 _ rfl), insertQuery_values]
      · intro h
        refine hbad' fun h' => h ⟨hfits, ?_⟩
        rintro _ ⟨⟩
        exact h'
    · exact ⟨fun h => absurd h.1 hfits, fun _ => hbad hfits⟩

/-- **All segments.** -/
theorem readSegments : ∀ (s : Bytes) (d : Dict), (∀ c ∈ s, Significant c) →
    ((∀ seg ∈ s.splitOn ampersand, SegmentFits seg) →
      parseUrlEncodedLoop x .parseName [] [] d s =
        ((queryPairs x.urlDecode (x.urlDecode []) s).foldl x.insert d, true)) ∧
      (¬ (∀ seg ∈ s.splitOn ampersand, SegmentFits seg) →
        (parseUrlEncodedLoop x .parseName [] [] d s).2 = false) := by
  intro s
  unfold queryPairs
  induction s using split_induction ampersand with
  | last w hw =>
    intro d hcounts
    obtain ⟨hgood, hbad⟩ := readSegment (x := x) (.inl rfl) d hcounts hw
    rw [List.append_nil] at hgood hbad
    rw [List.splitOn_eq_singleton hw, List.forall_mem_singleton, List.flatMap_singleton]
    exact ⟨hgood, hbad⟩
  | next w text hw ih =>
    intro d hcounts
    rw [List.forall_mem_append, List.forall_mem_cons] at hcounts
    obtain ⟨hgood, hbad⟩ := readSegment (x := x) (.inr ⟨text, rfl⟩) d hcounts.1 hw
    rw [List.splitOn_append_cons_self_of_not_mem hw, List.forall_mem_cons, List.flatMap_cons,
      List.foldl_append]
    by_cases hfits : SegmentFits w
    · rw [hgood hfits, nextSegment]
      obtain ⟨hgood', hbad'⟩ := ih _ hcounts.2.2
      exact ⟨fun h => hgood' h.2, fun h => hbad' fun h' => h ⟨hfits, h'⟩⟩
    · exact ⟨fun h => absurd h.1 hfits, fun _ => hbad hfits⟩

/-! ## The meaning of `parse_url_encoded` -/

theorem parseUrlEncoded_loop (d : Dict) (data : Bytes) :
    parseUrlEncoded x d data = parseUrlEncodedLoop x .parseName [] [] d (unfolded data) := by
  unfold parseUrlEncoded
  split
  · rename_i h
    rw [h]
    rfl
  · exact parseUrlEncodedLoop_unfolded data .parseName [] [] d

theorem counts_of_mem_unfolded {data : Bytes} : ∀ c ∈ unfolded data, Significant c := by
  intro c hc
  simpa using (List.mem_filter.mp hc).2

/-- The bytes of a segment that are tested are all but the separators in it. -/
theorem segment_control (seg : Bytes) :
    (∀ c ∈ seg, isControl c = false) ↔ (∀ c ∈ segmentName seg, isControl c = false) ∧
      ∀ values ∈ segmentValues seg, ∀ v ∈ values, ∀ c ∈ v, isControl c = false := by
  rcases segment_cases seg with ⟨_, hname, hvalues⟩ | ⟨name, values, rfl, _, hname, hvalues⟩
  · rw [hname, hvalues]
    simp
  · rw [hname, hvalues, List.forall_mem_append, List.forall_mem_cons]
    simp only [Option.mem_def, Option.some.injEq, forall_eq']
    rw [forall_mem_splitOn (p := fun c => isControl c = false) (by decide)]
    exact ⟨fun h => ⟨h.1, h.2.2⟩, fun h => ⟨h.1, by decide, h.2⟩⟩

/-- Every segment fits if no byte is a control byte and no name or value is too long. -/
theorem segmentsFit_iff (s : Bytes) :
    (∀ seg ∈ s.splitOn ampersand, SegmentFits seg) ↔
      (∀ c ∈ s, isControl c = false) ∧
      (∀ seg ∈ s.splitOn ampersand, (segmentName seg).length ≤ queryNameMax) ∧
      ∀ seg ∈ s.splitOn ampersand, ∀ values ∈ segmentValues seg, ∀ v ∈ values,
        v.length ≤ queryValueMax := by
  rw [← forall_mem_splitOn (a := ampersand) (p := fun c => isControl c = false) (by decide) s]
  constructor
  · intro h
    refine ⟨fun seg hseg => (segment_control seg).mpr ⟨(h seg hseg).1.1, ?_⟩,
      fun seg hseg => (h seg hseg).1.2, ?_⟩
    · exact fun values hvalues v hv => ((h seg hseg).2 values hvalues v hv).1
    · exact fun seg hseg values hvalues v hv => ((h seg hseg).2 values hvalues v hv).2
  · rintro ⟨hcontrol, hnames, hvalues⟩ seg hseg
    obtain ⟨hn, hv⟩ := (segment_control seg).mp (hcontrol seg hseg)
    exact ⟨⟨hn, hnames seg hseg⟩,
      fun values hvs v hmem => ⟨hv values hvs v hmem, hvalues seg hseg values hvs v hmem⟩⟩

/--
**`parse_url_encoded` and its meaning.** It fails exactly if a control byte counts or if a name
or a value is too long, and otherwise it inserts the pairs of the segments, in order. Where a
segment has no `=` the value is what decodes from nothing, which is nothing.
-/
theorem parseUrlEncoded_meaning (x : Externals) (dict : Dict) (data : Bytes) :
    let s := unfolded data
    let r := parseUrlEncoded x dict data
    (r.2 = false ↔ (∃ c ∈ s, isControl c = true) ∨
      (∃ seg ∈ s.splitOn ampersand, (segmentName seg).length > queryNameMax) ∨
      ∃ seg ∈ s.splitOn ampersand, ∃ values ∈ segmentValues seg, ∃ v ∈ values,
        v.length > queryValueMax) ∧
    (r.2 = true → r.1 = (queryPairs x.urlDecode (x.urlDecode []) s).foldl x.insert dict) ∧
    (x.urlDecode [] = [] → r.2 = true →
      r.1 = (queryPairs x.urlDecode [] s).foldl x.insert dict) := by
  intro s r
  obtain ⟨hgood, hbad⟩ := readSegments (x := x) s dict counts_of_mem_unfolded
  rw [← parseUrlEncoded_loop] at hgood hbad
  have hpairs : r.2 = true →
      r.1 = (queryPairs x.urlDecode (x.urlDecode []) s).foldl x.insert dict := by
    intro hr
    by_cases hfits : ∀ seg ∈ s.splitOn ampersand, SegmentFits seg
    · exact congrArg Prod.fst (hgood hfits)
    · exact absurd ((hbad hfits).symm.trans hr) Bool.false_ne_true
  refine ⟨?_, hpairs, fun habsent hr => habsent ▸ hpairs hr⟩
  have hfalse : r.2 = false ↔ ¬ ∀ seg ∈ s.splitOn ampersand, SegmentFits seg := by
    constructor
    · intro hr hfits
      exact Bool.false_ne_true (hr.symm.trans (congrArg Prod.snd (hgood hfits)))
    · exact hbad
  rw [hfalse, segmentsFit_iff, not_and_or, not_and_or]
  push Not
  simp only [Bool.not_eq_false, gt_iff_lt]

/-! ## Round trip -/

/-- All entries of a list are inserted, and nothing else. -/
theorem foldl_insert_perm (x : Externals) : ∀ (es d : Dict), (es.foldl x.insert d).Perm (es ++ d) := by
  intro es
  induction es with
  | nil => intro d; exact List.Perm.refl d
  | cons e es ih =>
    intro d
    refine (ih (x.insert d e)).trans ?_
    exact ((x.insert_perm d e).append_left es).trans List.perm_middle

section roundTrip

variable {urlEncode : Bytes → Bytes}

/-- What is relied on of `sl::utils::url_encode`. -/
structure Encodes (x : Externals) (urlEncode : Bytes → Bytes) : Prop where
  /-- `url_decode` takes it back. -/
  decode : ∀ w, x.urlDecode (urlEncode w) = w
  /-- What it writes is free of control bytes and separators. -/
  clean : ∀ w, ∀ c ∈ urlEncode w, isControl c = false ∧ c ≠ ampersand ∧ c ≠ equals ∧ c ≠ comma
  /-- It writes something for all but the empty string. -/
  nonempty : ∀ w, urlEncode w = [] → w = []

/-- A parameter that can be written and read back: it has a name, and its encoding has room. -/
structure ParamOk (urlEncode : Bytes → Bytes) (e : Bytes × Bytes) : Prop where
  name_ne : e.1 ≠ []
  name_length : (urlEncode e.1).length ≤ queryNameMax
  value_length : (urlEncode e.2).length ≤ queryValueMax

/-- How `make_query_string` writes one parameter. -/
def writtenParam (urlEncode : Bytes → Bytes) (e : Bytes × Bytes) : Bytes :=
  urlEncode e.1 ++ [equals] ++ urlEncode e.2

theorem Encodes.counts (h : Encodes x urlEncode) (e : Bytes × Bytes) :
    ∀ c ∈ writtenParam urlEncode e, isControl c = false ∧ c ≠ ampersand := by
  unfold writtenParam
  intro c hc
  rcases List.mem_append.mp hc with hc | hc
  · rcases List.mem_append.mp hc with hc | hc
    · obtain ⟨h1, h2, _⟩ := h.clean e.1 c hc
      exact ⟨h1, h2⟩
    · rw [List.mem_singleton.mp hc]
      decide
  · obtain ⟨h1, h2, _⟩ := h.clean e.2 c hc
    exact ⟨h1, h2⟩

/-- **A written parameter is a segment with one pair.** -/
theorem Encodes.segment (h : Encodes x urlEncode) {e : Bytes × Bytes} (he : ParamOk urlEncode e)
    (absent : Bytes) : SegmentFits (writtenParam urlEncode e) ∧
      segmentPairs x.urlDecode absent (writtenParam urlEncode e) = [e] := by
  have hname : equals ∉ urlEncode e.1 := fun hc => (h.clean e.1 equals hc).2.2.1 rfl
  have hcomma : comma ∉ urlEncode e.2 := fun hc => (h.clean e.2 comma hc).2.2.2 rfl
  have htext : writtenParam urlEncode e = urlEncode e.1 ++ equals :: urlEncode e.2 := by
    unfold writtenParam
    rw [List.append_assoc, List.singleton_append]
  obtain ⟨hn, hv⟩ := segment_split hname (urlEncode e.2)
  rw [List.splitOn_eq_singleton hcomma] at hv
  unfold SegmentFits segmentPairs
  rw [htext, hn, hv]
  refine ⟨⟨⟨fun c hc => (h.clean e.1 c hc).1, he.name_length⟩, ?_⟩, ?_⟩
  · rintro _ ⟨⟩ v hmem
    rw [List.mem_singleton.mp hmem]
    exact ⟨fun c hc => (h.clean e.2 c hc).1, he.value_length⟩
  · rw [if_neg fun hnil => he.name_ne (h.nonempty e.1 hnil)]
    show [(x.urlDecode (urlEncode e.1), x.urlDecode (urlEncode e.2))] = [e]
    rw [h.decode, h.decode]

/-- The segments of a query string are its parameters. -/
theorem Encodes.splitOn (h : Encodes x urlEncode) {params : Dict} (hne : params ≠ []) :
    (HttpRequest.makeQueryString urlEncode params).splitOn ampersand =
      params.map (writtenParam urlEncode) := by
  have hclean : ∀ w ∈ params.map (writtenParam urlEncode), ampersand ∉ w := by
    intro w hw hc
    obtain ⟨e, _, rfl⟩ := List.mem_map.mp hw
    exact (h.counts e ampersand hc).2 rfl
  exact List.splitOn_intercalate ampersand hclean (by simpa using hne)

/-- Nothing in a query string is skipped. -/
theorem Encodes.unfolded (h : Encodes x urlEncode) {params : Dict} (hne : params ≠ []) :
    unfolded (HttpRequest.makeQueryString urlEncode params) =
      HttpRequest.makeQueryString urlEncode params := by
  have hcontrol : ∀ c ∈ HttpRequest.makeQueryString urlEncode params, isControl c = false := by
    rw [← forall_mem_splitOn (a := ampersand) (p := fun c => isControl c = false) (by decide),
      h.splitOn hne]
    intro w hw c hc
    obtain ⟨e, _, rfl⟩ := List.mem_map.mp hw
    exact (h.counts e c hc).1
  refine List.filter_eq_self.mpr fun c hc => decide_eq_true ?_
  have hplain := hcontrol c hc
  rintro (rfl | rfl | rfl)
  · exact absurd hplain (by decide)
  · exact absurd hplain (by decide)
  · exact absurd hplain (by decide)

end roundTrip

/-! ## Percent encoding

An encoding of the kind that is relied on. -/

def unreserved (c : UInt8) : Bool :=
  isDigit c || (65 ≤ c.toNat && c.toNat ≤ 90) || (97 ≤ c.toNat && c.toNat ≤ 122) ||
    [dash, dot, 95, 126].contains c

def upperHex (n : Nat) : UInt8 := UInt8.ofNat (if n < 10 then 48 + n else 55 + n)

/-- An unreserved byte stands for itself. -/
def percentByte (c : UInt8) : Bytes :=
  if unreserved c then [c] else [37, upperHex (c.toNat / 16), upperHex (c.toNat % 16)]

def percentEncode (w : Bytes) : Bytes := w.flatMap percentByte

def percentDecode : Bytes → Bytes
  | c :: a :: b :: rest =>
    if c = 37 ∧ isHexDigit a ∧ isHexDigit b then UInt8.ofNat (hexNumber [a, b]) :: percentDecode rest
    else (if c = 43 then sp else c) :: percentDecode (a :: b :: rest)
  | c :: rest => (if c = 43 then sp else c) :: percentDecode rest
  | [] => []

/-- A byte that may stand in an encoded text. -/
def CleanByte (c : UInt8) : Prop :=
  isControl c = false ∧ c ≠ ampersand ∧ c ≠ equals ∧ c ≠ comma

instance : DecidablePred CleanByte := fun _ => inferInstanceAs (Decidable (_ ∧ _))

/-- What the encoding makes of each of the 256 bytes. -/
theorem percentByte_cases (c : UInt8) :
    (percentByte c = [c] ∧ CleanByte c ∧ c ≠ 37 ∧ c ≠ 43) ∨
      ∃ a b, percentByte c = [37, a, b] ∧ CleanByte a ∧ CleanByte b ∧ isHexDigit a = true ∧
        isHexDigit b = true ∧ UInt8.ofNat (hexNumber [a, b]) = c := by
  have hplain : ∀ n < 256, unreserved (UInt8.ofNat n) = true →
      CleanByte (UInt8.ofNat n) ∧ UInt8.ofNat n ≠ 37 ∧ UInt8.ofNat n ≠ 43 := by decide +kernel
  have hdigit : ∀ n < 16, CleanByte (upperHex n) ∧ isHexDigit (upperHex n) = true ∧
      hexValue (upperHex n) = n := by decide +kernel
  have hc : UInt8.ofNat c.toNat = c := UInt8.ofNat_toNat
  have hlt : c.toNat < 256 := c.toNat_lt
  unfold percentByte
  by_cases hu : unreserved c = true
  · left
    rw [if_pos hu]
    have := hplain c.toNat hlt (by rw [hc]; exact hu)
    rw [hc] at this
    exact ⟨rfl, this⟩
  · right
    obtain ⟨ha, ha', hva⟩ := hdigit (c.toNat / 16) (by omega)
    obtain ⟨hb, hb', hvb⟩ := hdigit (c.toNat % 16) (by omega)
    refine ⟨_, _, if_neg hu, ha, hb, ha', hb', ?_⟩
    have hnumber : hexNumber [upperHex (c.toNat / 16), upperHex (c.toNat % 16)] = c.toNat := by
      show (0 * 16 + hexValue _) * 16 + hexValue _ = _
      rw [hva, hvb]
      omega
    rw [hnumber, hc]

theorem percentDecode_byte (c : UInt8) (rest : Bytes) :
    percentDecode (percentByte c ++ rest) = c :: percentDecode rest := by
  rcases percentByte_cases c with ⟨h, _, hne, hplus⟩ | ⟨a, b, h, _, _, ha, hb, hc⟩
  · rw [h]
    show percentDecode (c :: rest) = _
    rcases rest with _ | ⟨a, _ | ⟨b, rest⟩⟩
    · rw [percentDecode.eq_2 _ _ (by simp), if_neg hplus]
    · rw [percentDecode.eq_2 _ _ (by simp), if_neg hplus]
    · rw [percentDecode, if_neg fun h => hne h.1, if_neg hplus]
  · rw [h]
    show percentDecode (37 :: a :: b :: rest) = _
    rw [percentDecode, if_pos ⟨rfl, ha, hb⟩, hc]

/-- The library, with an encoding that can be run. -/
def percentExternals : Externals := { plainExternals with urlDecode := percentDecode }

theorem percentEncode_encodes : Encodes percentExternals percentEncode where
  decode w := by
    show percentDecode (percentEncode w) = w
    induction w with
    | nil => rfl
    | cons c w ih =>
      show percentDecode (percentByte c ++ percentEncode w) = _
      rw [percentDecode_byte, ih]
  clean w := by
    intro c hc
    obtain ⟨d, _, hd⟩ := List.mem_flatMap.mp hc
    rcases percentByte_cases d with ⟨h, hclean, _⟩ | ⟨a, b, h, ha, hb, _⟩
    · rw [h, List.mem_singleton] at hd
      rw [hd]
      exact hclean
    · rw [h] at hd
      rcases List.mem_cons.mp hd with rfl | hd
      · decide
      rcases List.mem_cons.mp hd with rfl | hd
      · exact ha
      · rw [List.mem_singleton.mp hd]
        exact hb
  nonempty w := by
    intro h
    cases w with
    | nil => rfl
    | cons c w =>
      have hnil := (List.append_eq_nil_iff.mp h).1
      rcases percentByte_cases c with ⟨h, _⟩ | ⟨a, b, h, _⟩
      · rw [h] at hnil
        cases hnil
      · rw [h] at hnil
        cases hnil

/-! ## Query strings come back -/

/--
**Query strings come back.** In whatever order a dictionary is written down, reading it back
inserts exactly its entries.
-/
theorem parseUrlEncoded_makeQueryString (x : Externals) (urlEncode : Bytes → Bytes)
    (hencodes : Encodes x urlEncode) (params : Dict) (hparams : ∀ e ∈ params, ParamOk urlEncode e)
    (order : Dict) (horder : order.Perm params) (dict : Dict) :
    let r := parseUrlEncoded x dict (HttpRequest.makeQueryString urlEncode order)
    r = (order.foldl x.insert dict, true) ∧ r.1.Perm (params ++ dict) := by
  intro r
  have hr : r = (order.foldl x.insert dict, true) := by
    by_cases hne : order = []
    · show parseUrlEncoded x dict (HttpRequest.makeQueryString urlEncode order) = _
      rw [hne]
      rfl
    · have hok : ∀ e ∈ order, ParamOk urlEncode e := fun e he => hparams e (horder.mem_iff.mp he)
      have hfits : ∀ seg ∈ order.map (writtenParam urlEncode), SegmentFits seg := by
        intro seg hseg
        obtain ⟨e, he, rfl⟩ := List.mem_map.mp hseg
        exact (hencodes.segment (hok e he) []).1
      have hpairs : (order.map (writtenParam urlEncode)).flatMap
          (segmentPairs x.urlDecode (x.urlDecode [])) = order := by
        rw [List.flatMap_map, List.flatMap_congr fun e he => (hencodes.segment (hok e he) _).2]
        exact List.flatMap_singleton' order
      have hread := (readSegments (x := x) _ dict counts_of_mem_unfolded).1
        (by rw [hencodes.unfolded hne, hencodes.splitOn hne]; exact hfits)
      rw [← parseUrlEncoded_loop] at hread
      refine hread.trans ?_
      unfold queryPairs
      rw [hencodes.unfolded hne, hencodes.splitOn hne, hpairs]
  refine ⟨hr, ?_⟩
  rw [hr]
  exact (foldl_insert_perm x order dict).trans (horder.append_right dict)

/-- Two values for one name, separators, a space, and no value at all. -/
def someParams : Dict :=
  [(str "a", str "1,2&3=4"), (str "A", []), (str "b c", str "\r\n%"), (str "a", str "1,2&3=4")]

theorem parseUrlEncoded_someParams :
    HttpRequest.makeQueryString percentEncode someParams =
        str "a=1%2C2%263%3D4&A=&b%20c=%0D%0A%25&a=1%2C2%263%3D4" ∧
      let r := parseUrlEncoded percentExternals []
        (HttpRequest.makeQueryString percentEncode someParams.reverse)
      r = (someParams.reverse.foldl percentExternals.insert [], true) ∧
        r.1.Perm (someParams ++ []) := by
  have hok : ∀ e ∈ someParams, ParamOk percentEncode e := by
    have h : ∀ e ∈ someParams, e.1 ≠ [] ∧ (percentEncode e.1).length ≤ queryNameMax ∧
        (percentEncode e.2).length ≤ queryValueMax := by decide +kernel
    exact fun e he => ⟨(h e he).1, (h e he).2.1, (h e he).2.2⟩
  exact ⟨by decide +kernel, parseUrlEncoded_makeQueryString percentExternals percentEncode
    percentEncode_encodes someParams hok someParams.reverse (List.reverse_perm someParams) []⟩

end Pion.Proof
