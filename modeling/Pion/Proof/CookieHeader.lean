import Mathlib.Data.List.TakeWhile
import Pion.Proof.RoundTrip

/-!
# Cookie headers

`parse_cookie_header` against the grammar of what it reads: segments behind one another, with
a `;` or a `,` between them. A segment is a name, and perhaps a value behind a `=`, either
plain or in quotes. Between two segments the loop remembers nothing but the quote character
of the last value, and nobody looks at that before the next `=` has reset it.
-/

namespace Pion.Proof

open Pion Lib

variable {x : Externals} {set : Bool}

/-! ## The grammar -/

/-- What stands behind the name of a cookie. -/
inductive CookieValue where
  /-- No `=`. -/
  | absent
  /-- Text between two quotes, with spaces in front of it and anything up to the separator behind. -/
  | quoted (spaces : Nat) (q : UInt8) (text tail : Bytes)
  | plain (text : Bytes)
  deriving DecidableEq

def CookieValue.bytes : CookieValue → Bytes
  | .absent => []
  | .quoted spaces q text tail => equals :: (List.replicate spaces sp ++ q :: (text ++ q :: tail))
  | .plain text => equals :: text

/-- The value that is recorded. -/
def CookieValue.value : CookieValue → Bytes
  | .absent => []
  | .quoted _ _ text _ => text
  | .plain text => text.dropWhile (· = sp)

/-- The bytes that end a segment. -/
def IsSeparator (c : UInt8) : Prop := c = semicolon ∨ c = comma

instance : DecidablePred IsSeparator := fun _ => inferInstanceAs (Decidable (_ ∨ _))

def IsQuote (c : UInt8) : Prop := c = apostrophe ∨ c = quote

instance : DecidablePred IsQuote := fun _ => inferInstanceAs (Decidable (_ ∨ _))

/-- What a name or a plain value is made of. -/
def SegmentByte (c : UInt8) : Prop := ¬ IsSeparator c ∧ isControl c = false

instance : DecidablePred SegmentByte := fun _ => inferInstanceAs (Decidable (_ ∧ _))

def CookieValue.Ok : CookieValue → Prop
  | .absent => True
  | .quoted _ q text tail => IsQuote q ∧ q ∉ text ∧ (∀ c ∈ tail, ¬ IsSeparator c) ∧
      text.length ≤ cookieValueMax
  | .plain text => (∀ c ∈ text, SegmentByte c) ∧
      (∀ c ∈ (text.dropWhile (· = sp)).head?, ¬ IsQuote c) ∧
      (text.dropWhile (· = sp)).length ≤ cookieValueMax

instance : DecidablePred CookieValue.Ok
  | .absent => .isTrue trivial
  | .quoted _ _ _ _ => inferInstanceAs (Decidable (_ ∧ _))
  | .plain _ => inferInstanceAs (Decidable (_ ∧ _))

structure CookieSegment where
  name : Bytes
  value : CookieValue
  deriving DecidableEq

namespace CookieSegment

def text (seg : CookieSegment) : Bytes := seg.name ++ seg.value.bytes

/-- Spaces do not belong to the name. -/
def key (seg : CookieSegment) : Bytes := seg.name.filter (· ≠ sp)

@[mk_iff]
structure Ok (seg : CookieSegment) : Prop where
  name_byte : ∀ c ∈ seg.name, SegmentByte c ∧ c ≠ equals
  key_length : seg.key.length ≤ cookieNameMax
  value : seg.value.Ok

instance : DecidablePred Ok := fun seg => decidable_of_iff' _ (ok_iff seg)

/-- The cookie of a segment, unless its name is that of an attribute. -/
def cookie (set : Bool) (seg : CookieSegment) : Option (Bytes × Bytes) :=
  if isCookieAttribute seg.key set then none else some (seg.key, seg.value.value)

end CookieSegment

/-- A header: a segment, and others with the separators in front of them. -/
def cookieText (first : CookieSegment) (more : List (UInt8 × CookieSegment)) : Bytes :=
  first.text ++ (more.map fun e => e.1 :: e.2.text).flatten

/-! ## Names -/

/-- The quote character of the last value is of no interest in a name. -/
theorem forgetQuote : ∀ (cs : Bytes) (q : UInt8) (name value : Bytes) (d : Dict),
    parseCookieHeaderLoop x set .parseName q name value d cs =
      parseCookieHeaderLoop x set .parseName 0 name value d cs := by
  intro cs
  induction cs with
  | nil => intros; rfl
  | cons c cs ih =>
    intro q name value d
    rw [parseCookieHeaderLoop, parseCookieHeaderLoop]
    simp only [ih q]

/-- A name, without its spaces. -/
theorem readCookieName {value : Bytes} {d : Dict} {w : Bytes}
    (hw : ∀ c ∈ w, SegmentByte c ∧ c ≠ equals) (hlen : (w.filter (· ≠ sp)).length ≤ cookieNameMax)
    (rest : Bytes) :
    parseCookieHeaderLoop x set .parseName 0 [] value d (w ++ rest) =
      parseCookieHeaderLoop x set .parseName 0 (w.filter (· ≠ sp)) value d rest := by
  refine take_word (fun u cs =>
    parseCookieHeaderLoop x set .parseName 0 (u.filter (· ≠ sp)) value d cs) rest ?_
  rintro u c v rfl cs
  obtain ⟨⟨hsep, hcontrol⟩, heq⟩ := hw c (by simp)
  rw [parseCookieHeaderLoop, if_neg heq, if_neg (show ¬ (c = semicolon ∨ c = comma) from hsep),
    List.filter_append]
  by_cases hsp : c = sp
  · rw [if_pos hsp, List.filter_cons_of_neg (by simpa using hsp), List.filter_nil, List.append_nil]
  · have hfilter : [c].filter (· ≠ sp) = [c] := List.filter_cons_of_pos (by simpa using hsp)
    have hroom : ¬ (isControl c = true ∨ (u.filter (· ≠ sp)).length ≥ cookieNameMax) := by
      rw [show u ++ c :: v = u ++ [c] ++ v by simp, List.filter_append, List.filter_append, hfilter,
        List.length_append, List.length_append, List.length_singleton] at hlen
      rw [hcontrol]
      simp only [Bool.false_eq_true, false_or]
      omega
    rw [if_neg hsp, if_neg hroom, hfilter]

/-! ## Values -/

/-- The spaces in front of `u ++ v` are those in front of `u`, unless `u` is nothing else. -/
theorem dropSpaces_append {u : Bytes} (v : Bytes) :
    (u.dropWhile (· = sp) = [] → (u ++ v).dropWhile (· = sp) = v.dropWhile (· = sp)) ∧
      (u.dropWhile (· = sp) ≠ [] → (u ++ v).dropWhile (· = sp) = u.dropWhile (· = sp) ++ v) := by
  rw [List.dropWhile_append]
  constructor
  · intro h
    rw [h]
    rfl
  · intro h
    rw [if_neg (by simpa using h)]

/-- A plain value, without the spaces in front of it. -/
theorem readPlainValue {name : Bytes} {d : Dict} {w : Bytes} (hw : ∀ c ∈ w, SegmentByte c)
    (hquote : ∀ c ∈ (w.dropWhile (· = sp)).head?, ¬ IsQuote c)
    (hlen : (w.dropWhile (· = sp)).length ≤ cookieValueMax) (rest : Bytes) :
    parseCookieHeaderLoop x set .parseValue 0 name [] d (w ++ rest) =
      parseCookieHeaderLoop x set .parseValue 0 name (w.dropWhile (· = sp)) d rest := by
  refine take_word (fun u cs =>
    parseCookieHeaderLoop x set .parseValue 0 name (u.dropWhile (· = sp)) d cs) rest ?_
  rintro u c v rfl cs
  obtain ⟨hsep, hcontrol⟩ := hw c (by simp)
  rw [parseCookieHeaderLoop, if_pos rfl, if_neg (show ¬ (c = semicolon ∨ c = comma) from hsep)]
  by_cases hu : u.dropWhile (· = sp) = []
  · -- only spaces so far
    rw [(dropSpaces_append (c :: v)).1 hu] at hquote hlen
    rw [(dropSpaces_append [c]).1 hu, hu]
    by_cases hsp : c = sp
    · rw [if_neg (by rw [hsp]; decide), if_pos ⟨hsp, rfl⟩, List.dropWhile_cons_of_pos (by simpa using hsp),
        List.dropWhile_nil]
    · rw [List.dropWhile_cons_of_neg (by simpa using hsp)] at hquote hlen
      have hnq : ¬ (c = apostrophe ∨ c = quote) := hquote c rfl
      have hroom : ¬ (isControl c = true ∨ ([] : Bytes).length ≥ cookieValueMax) := by
        rw [hcontrol]
        decide
      rw [if_neg hnq, if_neg fun h => hsp h.1, if_neg hroom,
        List.dropWhile_cons_of_neg (by simpa using hsp), List.nil_append]
  · -- the value has begun, and quotes are part of it
    rw [(dropSpaces_append (c :: v)).2 hu, List.length_append, List.length_cons] at hlen
    have hfull : ¬ (u.dropWhile (· = sp)).length ≥ cookieValueMax := by omega
    have hroom : ¬ (isControl c = true ∨ (u.dropWhile (· = sp)).length ≥ cookieValueMax) := by
      rw [hcontrol]
      exact fun h => h.elim Bool.false_ne_true hfull
    rw [(dropSpaces_append [c]).2 hu, if_neg hu, if_neg hfull,
      if_neg (fun h : c = sp ∧ _ => hu h.2), if_neg hroom,
      ite_self]

/-- The text between quotes. -/
theorem readQuotedValue {q : UInt8} (hq : IsQuote q) {name : Bytes} {d : Dict} {w : Bytes}
    (hw : q ∉ w) (hlen : w.length ≤ cookieValueMax) (rest : Bytes) :
    parseCookieHeaderLoop x set .parseValue q name [] d (w ++ rest) =
      parseCookieHeaderLoop x set .parseValue q name w d rest := by
  have hq0 : q ≠ 0 := by
    rcases hq with rfl | rfl <;> decide
  refine take_word (fun u cs => parseCookieHeaderLoop x set .parseValue q name u d cs) rest ?_
  rintro u c v rfl cs
  have hne : c ≠ q := by
    rintro rfl
    exact hw (by simp)
  have hroom : ¬ u.length ≥ cookieValueMax := by
    rw [List.length_append, List.length_cons] at hlen
    omega
  rw [parseCookieHeaderLoop, if_neg hq0, if_neg hne, if_neg hroom]

/-- An opening quote, behind some spaces. -/
theorem readOpeningQuote {q : UInt8} (hq : IsQuote q) {name : Bytes} {d : Dict} (spaces : Nat)
    (rest : Bytes) :
    parseCookieHeaderLoop x set .parseValue 0 name [] d (List.replicate spaces sp ++ q :: rest) =
      parseCookieHeaderLoop x set .parseValue q name [] d rest := by
  have hspaces : (List.replicate spaces sp).dropWhile (· = sp) = [] := by
    rw [List.dropWhile_eq_nil_iff]
    intro c hc
    simpa using (List.mem_replicate.mp hc).2
  have hbyte : ∀ c ∈ List.replicate spaces sp, SegmentByte c := by
    intro c hc
    rw [(List.mem_replicate.mp hc).2]
    decide
  have hsep : ¬ (q = semicolon ∨ q = comma) := by
    rcases hq with rfl | rfl <;> decide
  rw [readPlainValue hbyte (by rw [hspaces]; simp) (by rw [hspaces]; decide), hspaces,
    parseCookieHeaderLoop, if_pos rfl, if_neg hsep,
    if_pos (show q = apostrophe ∨ q = quote from hq), if_pos rfl]

/-- What stands behind a closing quote is ignored. -/
theorem readTail {q : UInt8} {name value : Bytes} {d : Dict} {w : Bytes}
    (hw : ∀ c ∈ w, ¬ IsSeparator c) (rest : Bytes) :
    parseCookieHeaderLoop x set .parseIgnore q name value d (w ++ rest) =
      parseCookieHeaderLoop x set .parseIgnore q name value d rest := by
  refine take_word (fun _ cs => parseCookieHeaderLoop x set .parseIgnore q name value d cs) rest ?_
  rintro u c v rfl cs
  have hsep : ¬ (c = semicolon ∨ c = comma) := hw c (by simp)
  rw [parseCookieHeaderLoop, if_neg hsep]

/-! ## Segments -/

/-- What comes behind a segment: the end, or a separator and the next one. -/
def nextCookie (x : Externals) (set : Bool) (d : Dict) : Bytes → Dict × Bool
  | [] => (d, true)
  | _ :: cs => parseCookieHeaderLoop x set .parseName 0 [] [] d cs

/-- The end of the header, or a separator. -/
def SegmentEnds (rest : Bytes) : Prop := rest = [] ∨ ∃ c cs, rest = c :: cs ∧ IsSeparator c

theorem insertCookie_nil (d : Dict) (value : Bytes) : insertCookie x set d [] value = d := rfl

/-- A name at the end of its segment. -/
theorem endName {name : Bytes} {d : Dict} {rest : Bytes} (hrest : SegmentEnds rest) :
    parseCookieHeaderLoop x set .parseName 0 name [] d rest =
      nextCookie x set (insertCookie x set d name []) rest := by
  rcases hrest with rfl | ⟨c, cs, rfl, hc⟩
  · rw [parseCookieHeaderLoop, nextCookie]
  · have hne : c ≠ equals := by
      rcases hc with rfl | rfl <;> decide
    rw [parseCookieHeaderLoop, if_neg hne, if_pos (show c = semicolon ∨ c = comma from hc), nextCookie]
    split
    · rename_i hname
      rw [hname, insertCookie_nil]
    · rfl

/-- A plain value at the end of its segment. -/
theorem endPlainValue {name value : Bytes} {d : Dict} {rest : Bytes} (hrest : SegmentEnds rest) :
    parseCookieHeaderLoop x set .parseValue 0 name value d rest =
      nextCookie x set (insertCookie x set d name value) rest := by
  rcases hrest with rfl | ⟨c, cs, rfl, hc⟩
  · rw [parseCookieHeaderLoop, nextCookie]
  · rw [parseCookieHeaderLoop, if_pos rfl, if_pos (show c = semicolon ∨ c = comma from hc), nextCookie]

/-- The end of a segment whose value was quoted. -/
theorem endTail {q : UInt8} {d : Dict} {rest : Bytes} (hrest : SegmentEnds rest) :
    parseCookieHeaderLoop x set .parseIgnore q [] [] d rest = nextCookie x set d rest := by
  rcases hrest with rfl | ⟨c, cs, rfl, hc⟩
  · rw [parseCookieHeaderLoop, nextCookie, insertCookie_nil]
  · rw [parseCookieHeaderLoop, if_pos (show c = semicolon ∨ c = comma from hc), nextCookie, forgetQuote]

/-- **One segment.** -/
theorem readCookieSegment {seg : CookieSegment} (hseg : seg.Ok) {d : Dict} {rest : Bytes}
    (hrest : SegmentEnds rest) :
    parseCookieHeaderLoop x set .parseName 0 [] [] d (seg.text ++ rest) =
      nextCookie x set (insertCookie x set d seg.key seg.value.value) rest := by
  obtain ⟨name, value⟩ := seg
  obtain ⟨hname, hkey, hvalue⟩ := hseg
  unfold CookieSegment.text CookieSegment.key at *
  rw [List.append_assoc, readCookieName hname hkey]
  cases value with
  | absent => exact endName hrest
  | plain text =>
    obtain ⟨htext, hquote, hlen⟩ := hvalue
    show parseCookieHeaderLoop x set .parseName 0 _ [] d (equals :: (text ++ rest)) = _
    rw [parseCookieHeaderLoop, if_pos rfl, readPlainValue htext hquote hlen, endPlainValue hrest]
    rfl
  | quoted spaces q text tail =>
    obtain ⟨hq, htext, htail, hlen⟩ := hvalue
    have hbytes : (CookieValue.quoted spaces q text tail).bytes ++ rest =
        equals :: (List.replicate spaces sp ++ q :: (text ++ q :: (tail ++ rest))) := by
      unfold CookieValue.bytes
      simp only [List.cons_append, List.append_assoc]
    have hq0 : q ≠ 0 := by
      rcases hq with rfl | rfl <;> decide
    rw [hbytes, parseCookieHeaderLoop, if_pos rfl, readOpeningQuote hq, readQuotedValue hq htext hlen,
      parseCookieHeaderLoop, if_neg hq0, if_pos rfl, readTail htail, endTail hrest]
    rfl

/-- The cookies that some segments record, in order. -/
def recordCookies (x : Externals) (set : Bool) (d : Dict) (segs : List CookieSegment) : Dict :=
  (segs.filterMap (CookieSegment.cookie set)).foldl x.insert d

theorem recordCookies_cons (d : Dict) (seg : CookieSegment) (segs : List CookieSegment) :
    recordCookies x set d (seg :: segs) =
      recordCookies x set (insertCookie x set d seg.key seg.value.value) segs := by
  unfold recordCookies insertCookie
  by_cases h : isCookieAttribute seg.key set = true
  · have hnone : seg.cookie set = none := if_pos h
    rw [List.filterMap_cons_none hnone, if_pos h]
  · have hsome : seg.cookie set = some (seg.key, seg.value.value) := if_neg h
    rw [List.filterMap_cons_some hsome, List.foldl_cons, if_neg h]

/-- **A list of segments**, with anything behind it. -/
theorem readCookieSegments : ∀ (more : List (UInt8 × CookieSegment)) (first : CookieSegment) (d : Dict)
    (rest : Bytes), first.Ok → (∀ e ∈ more, IsSeparator e.1 ∧ e.2.Ok) → SegmentEnds rest →
    parseCookieHeaderLoop x set .parseName 0 [] [] d (cookieText first more ++ rest) =
      nextCookie x set (recordCookies x set d (first :: more.map Prod.snd)) rest := by
  intro more
  induction more with
  | nil =>
    intro first d rest hfirst _ hrest
    unfold cookieText
    rw [List.map_nil, List.flatten_nil, List.append_nil, readCookieSegment hfirst hrest, List.map_nil,
      recordCookies_cons]
    rfl
  | cons e more ih =>
    intro first d rest hfirst hmore hrest
    obtain ⟨hsep, he⟩ := hmore e List.mem_cons_self
    have htext : cookieText first (e :: more) ++ rest =
        first.text ++ e.1 :: (cookieText e.2 more ++ rest) := by
      unfold cookieText
      simp only [List.map_cons, List.flatten_cons, List.append_assoc, List.cons_append]
    rw [htext, readCookieSegment hfirst (.inr ⟨_, _, rfl, hsep⟩), nextCookie,
      ih e.2 _ rest he (fun f hf => hmore f (List.mem_cons_of_mem _ hf)) hrest, List.map_cons,
      recordCookies_cons d first]

/--
**Cookie headers.** Whatever the segments are and however they are separated, each of them
records one cookie with its own name and value, unless its name is that of an attribute.
-/
theorem parseCookieHeader_segments (x : Externals) (set : Bool) (dict : Dict) (first : CookieSegment)
    (more : List (UInt8 × CookieSegment)) (hfirst : first.Ok)
    (hmore : ∀ e ∈ more, IsSeparator e.1 ∧ e.2.Ok) :
    parseCookieHeader x dict (cookieText first more) set =
      (((first :: more.map Prod.snd).filterMap (CookieSegment.cookie set)).foldl x.insert dict,
        true) := by
  have hread : parseCookieHeaderLoop x set .parseName 0 [] [] dict (cookieText first more ++ []) =
      nextCookie x set (recordCookies x set dict (first :: more.map Prod.snd)) [] :=
    readCookieSegments more first dict [] hfirst hmore (.inl rfl)
  rw [List.append_nil] at hread
  exact hread

/-- A name with a space in it, attributes, quoted text with separators in it, and no value. -/
def someCookies : CookieSegment × List (UInt8 × CookieSegment) :=
  (⟨str "a b", .plain (str "  x'y ")⟩,
    [(semicolon, ⟨str "$v", .plain (str "1")⟩), (comma, ⟨str " PATH", .absent⟩),
      (semicolon, ⟨str " c ", .quoted 1 apostrophe (str "p;q=,\"") (str "=z")⟩), (semicolon, ⟨[], .absent⟩),
      (comma, ⟨str "d", .absent⟩), (comma, ⟨str "e", .quoted 0 quote [] []⟩)])

theorem parseCookieHeader_someCookies :
    cookieText someCookies.1 someCookies.2 =
        str "a b=  x'y ;$v=1, PATH; c = 'p;q=,\"'=z;,d,e=\"\"" ∧
      parseCookieHeader plainExternals [] (cookieText someCookies.1 someCookies.2) true =
        ([(str "ab", str "x'y "), (str "c", str "p;q=,\""), (str "d", []), (str "e", [])], true) :=
  ⟨by decide, parseCookieHeader_segments plainExternals true [] someCookies.1 someCookies.2
    (by decide +kernel) (by decide +kernel)⟩

/-! ## What `make_set_cookie_header` writes -/

/-- The attribute that `make_set_cookie_header` writes behind every cookie. -/
def versionSegment : CookieSegment := ⟨str " Version", .plain (str "1")⟩

def pathText (path : Bytes) : Bytes := if path = [] then [] else str "; Path=" ++ path

def maxAgeText : Option Nat → Bytes
  | none => []
  | some age => str "; Max-Age=" ++ toString age

theorem makeSetCookieHeader_eq (name value path : Bytes) (maxAge : Option Nat) :
    HttpMessage.makeSetCookieHeader name value path maxAge =
      cookieText ⟨name, .quoted 0 quote value []⟩ [(semicolon, versionSegment)] ++
        (pathText path ++ maxAgeText maxAge) := by
  have hbytes : (CookieValue.quoted 0 quote value []).bytes = str "=\"" ++ value ++ [quote] := by
    show equals :: quote :: (value ++ [quote]) = _
    rw [List.append_assoc]
    rfl
  have hversion : (str "\"; Version=1" : Bytes) = [quote] ++ (semicolon :: versionSegment.text) := rfl
  unfold HttpMessage.makeSetCookieHeader cookieText pathText
  rw [hversion, List.map_singleton, List.flatten_singleton]
  show _ = name ++ (CookieValue.quoted 0 quote value []).bytes ++ _ ++ _
  rw [hbytes]
  cases maxAge <;> simp only [maxAgeText, List.append_assoc]

/-- The name of an attribute, with a space in front of it or not. -/
structure AttributeName (name : Bytes) : Prop where
  name_byte : ∀ c ∈ name, SegmentByte c ∧ c ≠ equals
  key_length : (name.filter (· ≠ sp)).length ≤ cookieNameMax
  is_attribute : isCookieAttribute (name.filter (· ≠ sp)) true = true

theorem pathName : AttributeName (str " Path") := ⟨by decide, by decide, by decide⟩

theorem maxAgeName : AttributeName (str " Max-Age") := ⟨by decide, by decide, by decide⟩

/-- The segment of an attribute leaves no cookie. -/
theorem dropAttribute {name : Bytes} (hname : AttributeName name) {value : CookieValue}
    (hvalue : value.Ok) {d : Dict} {rest : Bytes} (hrest : SegmentEnds rest) :
    nextCookie x true d (semicolon :: (CookieSegment.text ⟨name, value⟩ ++ rest)) =
      nextCookie x true d rest := by
  have hok : CookieSegment.Ok ⟨name, value⟩ := ⟨hname.name_byte, hname.key_length, hvalue⟩
  rw [nextCookie, readCookieSegment hok hrest, insertCookie]
  exact congrArg (nextCookie x true · rest) (if_pos hname.is_attribute)

theorem segmentByte_of_isDigit {c : UInt8} (h : isDigit c = true) : SegmentByte c ∧ ¬ IsQuote c := by
  have hcontrol : isControl c = false := (valueByte_of_isDigit h).resolve_left (by rintro rfl; cases h)
  refine ⟨⟨?_, hcontrol⟩, ?_⟩
  · rintro (rfl | rfl) <;> cases h
  · rintro (rfl | rfl) <;> cases h

/-- Text without spaces in front of it. -/
theorem dropSpaces_digits {w : Bytes} (h : ∀ c ∈ w, isDigit c = true) : w.dropWhile (· = sp) = w := by
  cases w with
  | nil => rfl
  | cons c w =>
    have hc : c ≠ sp := by
      rintro rfl
      exact absurd (h sp List.mem_cons_self) (by decide)
    exact List.dropWhile_cons_of_neg (by simpa using hc)

/-- `Max-Age` is an attribute. -/
theorem nextCookie_maxAge (maxAge : Option UInt64) (d : Dict) :
    SegmentEnds (maxAgeText (maxAge.map UInt64.toNat)) ∧
      nextCookie x true d (maxAgeText (maxAge.map UInt64.toNat)) = (d, true) := by
  cases maxAge with
  | none => exact ⟨.inl rfl, rfl⟩
  | some age =>
    have hdigits : ∀ c ∈ toString age.toNat, isDigit c = true := fun c hc => isDigit_of_mem_toString hc
    have hok : (CookieValue.plain (toString age.toNat)).Ok := by
      refine ⟨fun c hc => (segmentByte_of_isDigit (hdigits c hc)).1, ?_, ?_⟩
      · rw [dropSpaces_digits hdigits]
        exact fun c hc => (segmentByte_of_isDigit (hdigits c (List.mem_of_mem_head? hc))).2
      · rw [dropSpaces_digits hdigits]
        exact Nat.le_trans (toString_length age.toNat_lt) (by decide)
    have hdrop := dropAttribute (x := x) (d := d) maxAgeName hok (.inl rfl)
    rw [List.append_nil] at hdrop
    exact ⟨.inr ⟨_, _, rfl, .inl rfl⟩, hdrop⟩

theorem maxAgeText_spec (maxAge : Option UInt64) :
    (maxAgeText (maxAge.map UInt64.toNat)).length ≤ 30 ∧
      ∀ c ∈ maxAgeText (maxAge.map UInt64.toNat), ¬ IsQuote c := by
  cases maxAge with
  | none => exact ⟨by decide, fun c hc => by cases hc⟩
  | some age =>
    have hlen := toString_length age.toNat_lt
    show (str "; Max-Age=" ++ toString age.toNat).length ≤ 30 ∧
      ∀ c ∈ str "; Max-Age=" ++ toString age.toNat, ¬ IsQuote c
    constructor
    · rw [List.length_append]
      exact Nat.add_le_add (show (str "; Max-Age=").length ≤ 10 by decide) hlen
    · intro c hc
      rcases List.mem_append.mp hc with hc | hc
      · exact (show ∀ c ∈ str "; Max-Age=", ¬ IsQuote c by decide) c hc
      · exact (segmentByte_of_isDigit (isDigit_of_mem_toString hc)).2

/-- A path may look like quoted text, with or without the closing quote. -/
theorem path_cases (path : Bytes) :
    (∀ c ∈ (path.dropWhile (· = sp)).head?, ¬ IsQuote c) ∨
      ∃ spaces q text, IsQuote q ∧ q ∉ text ∧ text.length ≤ path.length ∧
        (path = List.replicate spaces sp ++ q :: text ∨
          ∃ tail, path = List.replicate spaces sp ++ q :: (text ++ q :: tail)) := by
  have hspaces : path.takeWhile (· = sp) =
      List.replicate (path.takeWhile (· = sp)).length sp := by
    refine List.eq_replicate_of_mem fun c hc => ?_
    simpa using List.mem_takeWhile_imp hc
  have hpath := List.takeWhile_append_dropWhile (p := (· = sp)) (l := path)
  cases hv : path.dropWhile (· = sp) with
  | nil => exact .inl (by simp)
  | cons q v =>
    by_cases hq : IsQuote q
    · right
      rw [hv, hspaces] at hpath
      have hlen := congrArg List.length hpath
      rw [List.length_append, List.length_cons] at hlen
      by_cases hclosed : q ∈ v
      · obtain ⟨text, tail, rfl, htext⟩ := List.eq_append_cons_of_mem hclosed
        rw [List.length_append] at hlen
        exact ⟨_, q, text, hq, htext, by omega, .inr ⟨tail, hpath.symm⟩⟩
      · exact ⟨_, q, v, hq, hclosed, by omega, .inl hpath.symm⟩
    · left
      rintro c ⟨⟩
      exact hq

/-- `Path` is an attribute, also where the path looks like quoted text. -/
theorem nextCookie_path {path : Bytes} (hpath : ∀ c ∈ path, SegmentByte c)
    (hlen : path.length ≤ cookieValueMax - 64) (maxAge : Option UInt64) (d : Dict) :
    SegmentEnds (pathText path ++ maxAgeText (maxAge.map UInt64.toNat)) ∧
      nextCookie x true d (pathText path ++ maxAgeText (maxAge.map UInt64.toNat)) = (d, true) := by
  obtain ⟨hends, hage⟩ := nextCookie_maxAge (x := x) maxAge d
  obtain ⟨hagelen, hagequote⟩ := maxAgeText_spec maxAge
  have hmax : cookieValueMax = 1024 * 1024 := rfl
  generalize maxAgeText (maxAge.map UInt64.toNat) = age at *
  unfold pathText
  by_cases hnil : path = []
  · rw [if_pos hnil]
    exact ⟨hends, hage⟩
  rw [if_neg hnil]
  refine ⟨.inr ⟨semicolon, _, rfl, .inl rfl⟩, ?_⟩
  rcases path_cases path with hplain | ⟨spaces, q, text, hq, htext, hroom, rfl | ⟨tail, rfl⟩⟩
  · have hok : (CookieValue.plain path).Ok := by
      refine ⟨hpath, hplain, ?_⟩
      have := List.length_dropWhile_le (· = sp) path
      omega
    exact (dropAttribute pathName hok hends).trans hage
  · -- no closing quote: what follows belongs to the path
    have hq0 : q ≠ 0 := by
      rcases hq with rfl | rfl <;> decide
    have hall : q ∉ text ++ age := by
      intro hmem
      exact (List.mem_append.mp hmem).elim htext fun h => hagequote q h hq
    have htotal : (text ++ age).length ≤ cookieValueMax := by
      rw [List.length_append]
      omega
    have hread : parseCookieHeaderLoop x true .parseValue q (str "Path") [] d (text ++ age ++ []) =
        parseCookieHeaderLoop x true .parseValue q (str "Path") (text ++ age) d [] :=
      readQuotedValue hq hall htotal []
    rw [List.append_nil] at hread
    show parseCookieHeaderLoop x true .parseName 0 [] [] d
      (str " Path" ++ (equals :: (List.replicate spaces sp ++ q :: text) ++ age)) = _
    rw [readCookieName pathName.name_byte pathName.key_length, List.cons_append, parseCookieHeaderLoop, if_pos rfl,
      List.append_assoc, List.cons_append, readOpeningQuote hq]
    exact hread
  · have hok : (CookieValue.quoted spaces q text tail).Ok := by
      refine ⟨hq, htext, fun c hc => ?_, by omega⟩
      exact (hpath c (by simp [hc])).1
    have hbytes : str "; Path=" ++ (List.replicate spaces sp ++ q :: (text ++ q :: tail)) ++ age =
        semicolon :: (CookieSegment.text ⟨str " Path", .quoted spaces q text tail⟩ ++ age) := rfl
    rw [hbytes]
    exact (dropAttribute pathName hok hends).trans hage

/-- A cookie that is written in quotes, with attributes behind it. -/
theorem readSetCookie {name value : Bytes}
    (hname : ∀ c ∈ name, SegmentByte c ∧ c ≠ equals ∧ c ≠ sp) (hlen : name.length ≤ cookieNameMax)
    (hattr : isCookieAttribute name true = false) (hvalue : quote ∉ value)
    (hroom : value.length ≤ cookieValueMax) {rest : Bytes} (hrest : SegmentEnds rest) (d : Dict)
    (hnext : ∀ d, nextCookie x true d rest = (d, true)) :
    parseCookieHeader x d
        (cookieText ⟨name, .quoted 0 quote value []⟩ [(semicolon, versionSegment)] ++ rest) true =
      (x.insert d (name, value), true) := by
  have hkey : CookieSegment.key ⟨name, .quoted 0 quote value []⟩ = name := by
    refine List.filter_eq_self.mpr fun c hc => ?_
    simpa using (hname c hc).2.2
  have hfirst : CookieSegment.Ok ⟨name, .quoted 0 quote value []⟩ :=
    ⟨fun c hc => ⟨(hname c hc).1, (hname c hc).2.1⟩, by rw [hkey]; exact hlen, .inr rfl, hvalue,
      by simp, hroom⟩
  have hversion : ∀ e ∈ [(semicolon, versionSegment)], IsSeparator e.1 ∧ e.2.Ok := by
    intro e he
    rw [List.mem_singleton.mp he]
    exact ⟨.inl rfl, by decide +kernel⟩
  unfold parseCookieHeader
  rw [readCookieSegments _ _ d rest hfirst hversion hrest, hnext, recordCookies_cons, hkey,
    insertCookie, if_neg (by rw [hattr]; exact Bool.false_ne_true)]
  rfl

/--
**A cookie that was set is read back**, whatever bytes its value has, and whatever its path
and its lifetime are.
-/
theorem parseCookieHeader_makeSetCookieHeader (x : Externals) (name value path : Bytes)
    (maxAge : Option UInt64) (dict : Dict)
    (hname : ∀ c ∈ name, c ≠ sp ∧ c ≠ equals ∧ c ≠ semicolon ∧ c ≠ comma ∧ isControl c = false)
    (hlen : name.length ≤ cookieNameMax) (hattr : isCookieAttribute name true = false)
    (hvalue : ∀ c ∈ value, c ≠ quote) (hroom : value.length ≤ cookieValueMax)
    (hpath : ∀ c ∈ path, c ≠ semicolon ∧ c ≠ comma ∧ isControl c = false)
    (hpathlen : path.length ≤ cookieValueMax - 64) :
    parseCookieHeader x dict
        (HttpMessage.makeSetCookieHeader name value path (maxAge.map UInt64.toNat)) true =
      (x.insert dict (name, value), true) := by
  have hname' : ∀ c ∈ name, SegmentByte c ∧ c ≠ equals ∧ c ≠ sp := by
    intro c hc
    obtain ⟨hsp, heq, hsemi, hcomma, hcontrol⟩ := hname c hc
    exact ⟨⟨fun h => h.elim hsemi hcomma, hcontrol⟩, heq, hsp⟩
  have hpath' : ∀ c ∈ path, SegmentByte c := by
    intro c hc
    obtain ⟨hsemi, hcomma, hcontrol⟩ := hpath c hc
    exact ⟨fun h => h.elim hsemi hcomma, hcontrol⟩
  rw [makeSetCookieHeader_eq]
  exact readSetCookie hname' hlen hattr (fun h => hvalue quote h rfl) hroom
    (nextCookie_path (x := x) hpath' hpathlen maxAge dict).1 dict
    fun d => (nextCookie_path hpath' hpathlen maxAge d).2

/-- A value full of separators, a path that opens a quote, and the longest lifetime. -/
theorem parseCookieHeader_setCookie :
    HttpMessage.makeSetCookieHeader (str "id") (str "a;b, c='\r\n") (str " 'x")
        (some (18446744073709551615 : UInt64).toNat) =
      str "id=\"a;b, c='\r\n\"; Version=1; Path= 'x; Max-Age=18446744073709551615" ∧
    parseCookieHeader plainExternals []
        (HttpMessage.makeSetCookieHeader (str "id") (str "a;b, c='\r\n") (str " 'x")
          ((some (18446744073709551615 : UInt64)).map UInt64.toNat)) true =
      ([(str "id", str "a;b, c='\r\n")], true) :=
  ⟨by decide +kernel, parseCookieHeader_makeSetCookieHeader plainExternals (str "id")
    (str "a;b, c='\r\n") (str " 'x") (some 18446744073709551615) [] (by decide) (by decide) (by decide)
    (by decide) (by decide) (by decide) (by decide)⟩

end Pion.Proof
