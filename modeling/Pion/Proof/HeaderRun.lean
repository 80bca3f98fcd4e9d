import Mathlib.Tactic.MkIffOfInductiveProp
import Pion.Lib.Numeral
import Pion.Proof.Phases

/-!
# Reading a header block

The header loop, run forwards over the parts of a well-formed header block. Each
lemma takes one part off the front of the buffer and says what it leaves in the
parser and in the message; `readHeader` is the whole header line and
`readHeaders` a whole list of them.

A part is longer than its text: where the source checks a length it does so before
it appends, so a text of exactly the maximal length still passes.
-/

namespace Pion.Proof

open Pion Lib

variable {x : Externals}

/-! ## What may stand in a header block -/

/-- A byte that may stand in a method or in a header name. -/
def TokenByte (c : UInt8) : Prop := notToken c = false

/-- A byte that may stand in a header value. -/
def ValueByte (c : UInt8) : Prop := c = tab ∨ isControl c = false

instance (c : UInt8) : Decidable (TokenByte c) := inferInstanceAs (Decidable (notToken c = false))

instance (c : UInt8) : Decidable (ValueByte c) := inferInstanceAs (Decidable (_ ∨ _))

/-- A header that `add_header` can be given and `parse_headers` reads back. -/
@[mk_iff]
structure HeaderOk (e : Bytes × Bytes) : Prop where
  name_ne : e.1 ≠ []
  name_token : ∀ c ∈ e.1, TokenByte c
  name_length : e.1.length ≤ headerNameMax
  value_byte : ∀ c ∈ e.2, ValueByte c
  value_length : e.2.length ≤ headerValueMax

instance (e : Bytes × Bytes) : Decidable (HeaderOk e) := decidable_of_iff' _ (headerOk_iff e)

theorem tokenByte_iff (c : UInt8) :
    TokenByte c ↔ c.toNat ≤ 127 ∧ isControl c = false ∧ isSpecial c = false := by
  unfold TokenByte notToken isChar
  simp [and_assoc]

theorem TokenByte.not_control {c : UInt8} (h : TokenByte c) : isControl c = false := by
  obtain ⟨_, hcontrol, _⟩ := (tokenByte_iff c).mp h
  exact hcontrol

theorem TokenByte.not_special {c : UInt8} (h : TokenByte c) : isSpecial c = false := by
  obtain ⟨_, _, hspecial⟩ := (tokenByte_iff c).mp h
  exact hspecial

theorem TokenByte.ne_of_special {c d : UInt8} (h : TokenByte c) (hd : isSpecial d = true) : c ≠ d := by
  intro he
  have := h.not_special
  rw [he, hd] at this
  cases this

theorem ne_of_control {c d : UInt8} (h : isControl c = false) (hd : isControl d = true) : c ≠ d := by
  intro he
  rw [he, hd] at h
  cases h

theorem ValueByte.ne_of_control {c d : UInt8} (h : ValueByte c) (hd : isControl d = true)
    (hne : d ≠ tab) : c ≠ d := by
  rcases h with h | h
  · rw [h]
    exact hne.symm
  · exact Proof.ne_of_control h hd

/-! ## Raw headers -/

theorem recordRaw_nil (p : HeaderFields) : p.recordRaw [] = p := by
  unfold HeaderFields.recordRaw
  simp

theorem recordRaw_append (p : HeaderFields) (u v : Bytes) :
    (p.recordRaw u).recordRaw v = p.recordRaw (u ++ v) := by
  unfold HeaderFields.recordRaw
  cases p.saveRawHeaders <;> simp

/-! ## One byte -/

theorem headerScanner_take {s s' : HeaderState} {c : UInt8} {rest : Bytes}
    (h : headerSwitch x (s.1.recordRaw [c], s.2) c = .take s') :
    (headerScanner x).run s (c :: rest) = (headerScanner x).run s' rest :=
  Scanner.ofSymbols_take h

theorem headerScanner_word {w : Bytes} (after : Bytes → HeaderState) (rest : Bytes)
    (h : ∀ u c v, w = u ++ c :: v →
      headerSwitch x ((after u).1.recordRaw [c], (after u).2) c = .take (after (u ++ [c]))) :
    (headerScanner x).run (after []) (w ++ rest) = (headerScanner x).run (after w) rest :=
  Scanner.ofSymbols_word after rest h

/-! ## Words

Most states append the byte to a field, if it is one that may stand there and the field is
not full. `field u` is the state when `u` has been read, without the raw headers. -/

section word

variable {good : UInt8 → Prop} {limit : Nat} {w : Bytes} (field : Bytes → HeaderState)

/-- A word, where `n` bytes are in the field already. -/
theorem readWord {n : Nat} (hgood : ∀ c ∈ w, good c) (hlen : n + w.length ≤ limit)
    (hstep : ∀ u c, good c → n + u.length < limit →
      headerSwitch x ((field u).1.recordRaw (u ++ [c]), (field u).2) c =
        .take ((field (u ++ [c])).1.recordRaw (u ++ [c]), (field (u ++ [c])).2)) (rest : Bytes) :
    (headerScanner x).run (field []) (w ++ rest) =
      (headerScanner x).run ((field w).1.recordRaw w, (field w).2) rest := by
  have hword := headerScanner_word (x := x) (w := w)
    (fun u => ((field u).1.recordRaw u, (field u).2)) rest ?_
  · rw [recordRaw_nil] at hword
    exact hword
  intro u c v hw
  dsimp only
  rw [recordRaw_append]
  refine hstep u c (hgood c (by rw [hw]; simp)) ?_
  rw [hw, List.length_append, List.length_cons] at hlen
  omega

/-- A word whose first byte is read in another state. -/
theorem readWordFrom {start : HeaderState} (hne : w ≠ []) (hgood : ∀ c ∈ w, good c)
    (hlen : w.length ≤ limit)
    (hfirst : ∀ c, good c → headerSwitch x (start.1.recordRaw [c], start.2) c =
      .take ((field [c]).1.recordRaw [c], (field [c]).2))
    (hstep : ∀ u c, good c → u.length < limit →
      headerSwitch x ((field u).1.recordRaw (u ++ [c]), (field u).2) c =
        .take ((field (u ++ [c])).1.recordRaw (u ++ [c]), (field (u ++ [c])).2)) (rest : Bytes) :
    (headerScanner x).run start (w ++ rest) =
      (headerScanner x).run ((field w).1.recordRaw w, (field w).2) rest := by
  obtain ⟨c, cs, rfl⟩ := List.exists_cons_of_ne_nil hne
  rw [List.cons_append, headerScanner_take (hfirst c (hgood c List.mem_cons_self))]
  refine headerScanner_word (fun u => ((field (c :: u)).1.recordRaw (c :: u), (field (c :: u)).2)) rest ?_
  intro u d v hw
  dsimp only
  rw [recordRaw_append]
  refine hstep (c :: u) d (hgood d (by rw [hw]; simp)) ?_
  rw [hw] at hlen
  simp only [List.length_cons, List.length_append] at hlen ⊢
  omega

end word

/-! ## A header line -/

section line

variable (p : HeaderFields) (m : HttpRequest)

/-- The states in which a header name may start. -/
def StartsLine (st : HeaderParseState) : Prop :=
  st = .headerStart ∨ st = .headerWhitespace ∨ st = .expectingNewline ∨ st = .expectingCr

/-- They take the first byte of a name alike, without a look at the limit. -/
theorem startsName {p : HeaderFields} (hst : StartsLine p.headersParseState) {c : UInt8}
    (hc : TokenByte c) :
    headerSwitch x (p.recordRaw [c], m) c =
      .take ({ p.recordRaw [c] with headerName := [c], headersParseState := .headerName }, m) := by
  have hcr : c ≠ cr := ne_of_control hc.not_control rfl
  have hlf : c ≠ lf := ne_of_control hc.not_control rfl
  have htab : c ≠ tab := ne_of_control hc.not_control rfl
  have hsp : c ≠ sp := hc.ne_of_special rfl
  have hblank : ¬ (c = tab ∨ c = sp) := fun h => h.elim htab hsp
  have hstate : (p.recordRaw [c]).headersParseState = p.headersParseState := rfl
  unfold headerSwitch startHeaderName
  dsimp only
  rw [hstate]
  rcases hst with h | h | h | h
  · rw [h]
    dsimp only
    rw [if_neg hcr, if_neg hlf, if_neg hblank, if_neg (Bool.eq_false_iff.mp hc)]
  · rw [h]
    dsimp only
    rw [if_neg hcr, if_neg hlf, if_pos ⟨htab, hsp⟩, if_neg (Bool.eq_false_iff.mp hc)]
  · rw [h]
    dsimp only
    rw [if_neg hlf, if_neg hcr, if_neg hblank, if_neg (Bool.eq_false_iff.mp hc)]
  · rw [h]
    dsimp only
    rw [if_neg hcr, if_neg hlf, if_neg hblank, if_neg (Bool.eq_false_iff.mp hc)]

/-- A header name, from the beginning of a line. -/
theorem readHeaderName {p : HeaderFields} (hst : StartsLine p.headersParseState) {name : Bytes}
    (hne : name ≠ []) (htok : ∀ c ∈ name, TokenByte c) (hlen : name.length ≤ headerNameMax)
    (rest : Bytes) :
    (headerScanner x).run (p, m) (name ++ rest) =
      (headerScanner x).run
        ({ p with headerName := name, headersParseState := .headerName }.recordRaw name, m) rest := by
  refine readWordFrom (fun u => ({ p with headerName := u, headersParseState := .headerName }, m))
    hne htok hlen (fun c hc => startsName m hst hc) ?_ rest
  intro u c hc hu
  unfold headerSwitch
  dsimp only [HeaderFields.recordRaw]
  rw [if_neg (hc.ne_of_special rfl), if_neg (Bool.eq_false_iff.mp hc), if_neg (Nat.not_le.mpr hu)]

/-- More of a header value. -/
theorem readHeaderValue (front : Bytes) {value : Bytes} (hbyte : ∀ c ∈ value, ValueByte c)
    (hlen : (front ++ value).length ≤ headerValueMax) (rest : Bytes) :
    (headerScanner x).run
        ({ p with headerValue := front, headersParseState := .headerValue }, m) (value ++ rest) =
      (headerScanner x).run
        ({ p with headerValue := front ++ value, headersParseState := .headerValue }.recordRaw value, m)
        rest := by
  rw [List.length_append] at hlen
  have hword := readWord (x := x)
    (fun u => ({ p with headerValue := front ++ u, headersParseState := .headerValue }, m))
    hbyte hlen ?_ rest
  · rw [List.append_nil] at hword
    exact hword
  intro u c hc hu
  rw [← List.length_append] at hu
  unfold headerSwitch
  dsimp only [HeaderFields.recordRaw]
  rw [if_neg (hc.ne_of_control rfl (by decide)), if_neg (hc.ne_of_control rfl (by decide)),
    if_neg (fun h => hc.elim h.1 (fun hctl => Bool.eq_false_iff.mp hctl h.2)),
    if_neg (Nat.not_le.mpr hu), List.append_assoc]

/-- The end of a line behind which more headers may come. -/
theorem readNewline (hm : m.versionMajor ≠ 0) (rest : Bytes) :
    (headerScanner x).run ({ p with headersParseState := .expectingNewline }, m) (lf :: rest) =
      (headerScanner x).run ({ p with headersParseState := .headerStart }.recordRaw [lf], m) rest := by
  refine headerScanner_take ?_
  unfold headerSwitch headerGoto
  dsimp only [HeaderFields.recordRaw]
  rw [if_pos rfl, if_neg hm]

/-- The end of a header line: the header goes to the message. -/
theorem readHeaderEnd {st : HeaderParseState} (hst : st = .headerValue ∨ st = .spaceBeforeHeaderValue)
    (hm : m.versionMajor ≠ 0) (rest : Bytes) :
    (headerScanner x).run ({ p with headersParseState := st }, m) (stringCrlf ++ rest) =
      (headerScanner x).run ({ p with headersParseState := .headerStart }.recordRaw stringCrlf,
        { m with headers := x.insert m.headers (p.headerName, p.headerValue) }) rest := by
  have hcr : headerSwitch x ({ p with headersParseState := st }.recordRaw [cr], m) cr =
      .take ({ p with headersParseState := .expectingNewline }.recordRaw [cr],
        { m with headers := x.insert m.headers (p.headerName, p.headerValue) }) := by
    unfold headerSwitch headerGoto addHeader
    rcases hst with rfl | rfl
    · rfl
    · rfl
  have hraw : { p with headersParseState := .headerStart }.recordRaw stringCrlf =
      ({ p with headersParseState := .headerStart }.recordRaw [cr]).recordRaw [lf] :=
    (recordRaw_append _ [cr] [lf]).symm
  rw [hraw]
  exact (headerScanner_take hcr).trans (readNewline (p.recordRaw [cr])
    { m with headers := x.insert m.headers (p.headerName, p.headerValue) } hm rest)

end line

/-- A header line as it stands in the stream. -/
structure HeaderLine where
  name : Bytes
  value : Bytes
  /-- Does a blank follow the colon? -/
  blank : Bool := true

namespace HeaderLine

def text (l : HeaderLine) : Bytes :=
  l.name ++ ([colon] ++ ((if l.blank then [sp] else []) ++ (l.value ++ stringCrlf)))

def entry (l : HeaderLine) : Bytes × Bytes := (l.name, l.value)

/-- A well-formed header line. A blank that follows the colon is not one of the value. -/
@[mk_iff]
structure Ok (l : HeaderLine) : Prop where
  header : HeaderOk l.entry
  start : l.blank = false → l.value.head? ≠ some sp

instance (l : HeaderLine) : Decidable l.Ok := decidable_of_iff' _ (ok_iff l)

/-- A line that is read: without the blank, the first byte of its value has to be one that a name
may have. -/
@[mk_iff]
structure Readable (l : HeaderLine) : Prop where
  header : HeaderOk l.entry
  glued : l.blank = false → ∀ c ∈ l.value.head?, TokenByte c

instance (l : HeaderLine) : Decidable l.Readable :=
  have : Decidable (∀ c ∈ l.value.head?, TokenByte c) := Option.decidableForallMem _
  decidable_of_iff' _ (readable_iff l)

/-- The lines that are well formed and not read. -/
theorem Ok.unreadable {l : HeaderLine} (h : l.Ok) (hnot : ¬ l.Readable) :
    l.blank = false ∧ ∃ c cs, l.value = c :: cs ∧ c ≠ sp ∧ ValueByte c ∧ ¬ TokenByte c := by
  have hblank : l.blank = false := by
    by_contra hb
    exact hnot ⟨h.header, fun hf => absurd hf hb⟩
  refine ⟨hblank, ?_⟩
  cases hv : l.value with
  | nil => exact absurd ⟨h.header, fun _ c hc => by rw [hv] at hc; cases hc⟩ hnot
  | cons c cs =>
    refine ⟨c, cs, rfl, ?_, ?_, fun hc => hnot ⟨h.header, fun _ d hd => ?_⟩⟩
    · rintro rfl
      exact h.start hblank (by rw [hv]; rfl)
    · exact h.header.value_byte c (by show c ∈ l.value; rw [hv]; exact List.mem_cons_self)
    · rw [hv] at hd
      obtain rfl := Option.some.inj hd
      exact hc

end HeaderLine

/-- The name and the colon, at the beginning of any line. -/
theorem readNameColon {s : HeaderState} (hs : StartsLine s.1.headersParseState) {e : Bytes × Bytes}
    (he : HeaderOk e) (rest : Bytes) :
    (headerScanner x).run s (e.1 ++ colon :: rest) =
      (headerScanner x).run ({ (s.1.recordRaw e.1).recordRaw [colon] with
        headerName := e.1, headerValue := [], headersParseState := .spaceBeforeHeaderValue }, s.2)
        rest := by
  have hcolon : headerSwitch x (({ s.1 with headerName := e.1, headersParseState := .headerName
      }.recordRaw e.1).recordRaw [colon], s.2) colon =
      .take ({ (s.1.recordRaw e.1).recordRaw [colon] with
        headerName := e.1, headerValue := [], headersParseState := .spaceBeforeHeaderValue }, s.2) := rfl
  exact (readHeaderName s.2 hs he.name_ne he.name_token he.name_length (colon :: rest)).trans
    (headerScanner_take hcolon)

/-- A value is refused at its first byte if it stands right behind the colon, and no name may have
that byte. -/
theorem refusesGlued {s : HeaderState} (hs : s.1.headersParseState = .spaceBeforeHeaderValue) {c : UInt8}
    (hsp : c ≠ sp) (hvalue : ValueByte c) (hc : ¬ TokenByte c) (rest : Bytes) :
    ∃ q, (headerScanner x).run s (c :: rest) = .stop (some .headerChar) (q, s.2) (c :: rest) := by
  have hstop : headerStep x s c = .stop (some .headerChar) (s.1.recordRaw [c], s.2) false := by
    unfold headerStep headerSwitch
    dsimp only [HeaderFields.recordRaw]
    rw [hs]
    dsimp only
    rw [if_neg hsp, if_neg (hvalue.ne_of_control rfl (by decide)),
      if_neg (hvalue.ne_of_control rfl (by decide)), if_pos (Bool.of_not_eq_false hc)]
    rfl
  exact ⟨_, Scanner.ofSymbols_stop hstop⟩

/-- Behind the colon: the value up to the end of the line. -/
theorem readAfterColon (p : HeaderFields) {m : HttpRequest} {l : HeaderLine} (hl : l.Readable)
    (hm : m.versionMajor ≠ 0) (rest : Bytes) :
    (headerScanner x).run
        ({ p with headerName := l.name, headerValue := [], headersParseState := .spaceBeforeHeaderValue }, m)
        ((if l.blank then [sp] else []) ++ (l.value ++ stringCrlf) ++ rest) =
      (headerScanner x).run
        ({ p with headerName := l.name, headerValue := l.value, headersParseState := .headerStart
          }.recordRaw ((if l.blank then [sp] else []) ++ (l.value ++ stringCrlf)),
          { m with headers := x.insert m.headers l.entry }) rest := by
  let q : HeaderFields := { p with headerName := l.name, headerValue := l.value }
  rw [List.append_assoc, List.append_assoc, ← recordRaw_append, ← recordRaw_append]
  cases hb : l.blank with
  | true =>
    have h1 : headerSwitch x ({ q with headerValue := [], headersParseState := .spaceBeforeHeaderValue
        }.recordRaw [sp], m) sp =
        .take ({ q.recordRaw [sp] with headerValue := [], headersParseState := .headerValue }, m) := rfl
    have h2 := readHeaderValue (x := x) (q.recordRaw [sp]) m [] hl.header.value_byte
      hl.header.value_length (stringCrlf ++ rest)
    have h3 := readHeaderEnd (x := x) ((q.recordRaw [sp]).recordRaw l.value) m (Or.inl rfl) hm rest
    exact (headerScanner_take h1).trans (h2.trans h3)
  | false =>
    rw [if_neg Bool.false_ne_true, recordRaw_nil, List.nil_append]
    cases hv : l.value with
    | nil =>
      have h3 := readHeaderEnd (x := x) { p with headerName := l.name, headerValue := [] } m
        (Or.inr rfl) hm rest
      unfold HeaderLine.entry
      rw [recordRaw_nil, hv]
      exact h3
    | cons c cs =>
      -- without a blank, the first byte of the value must not be a special one
      have hc := hl.glued hb c (by rw [hv]; rfl)
      have hbyte := hl.header.value_byte
      have hlen := hl.header.value_length
      unfold HeaderLine.entry at hbyte hlen ⊢
      rw [hv] at hbyte hlen ⊢
      have h1 : headerSwitch x ({ p with
          headerName := l.name, headerValue := [], headersParseState := .spaceBeforeHeaderValue
          }.recordRaw [c], m) c =
          .take ({ { p with headerName := l.name }.recordRaw [c] with
            headerValue := [c], headersParseState := .headerValue }, m) := by
        unfold headerSwitch
        dsimp only [HeaderFields.recordRaw]
        rw [if_neg (hc.ne_of_special rfl), if_neg (ne_of_control hc.not_control rfl),
          if_neg (ne_of_control hc.not_control rfl), if_neg (Bool.eq_false_iff.mp hc)]
        rfl
      have h2 := readHeaderValue (x := x) ({ p with headerName := l.name }.recordRaw [c]) m
        [c] (fun d hd => hbyte d (List.mem_cons_of_mem c hd)) hlen
        (stringCrlf ++ rest)
      have h3 := readHeaderEnd (x := x)
        ({ { p with headerName := l.name }.recordRaw [c] with headerValue := c :: cs }.recordRaw cs) m
        (Or.inl rfl) hm rest
      rw [← List.singleton_append, ← recordRaw_append]
      exact (headerScanner_take h1).trans (h2.trans h3)

/-- **A header line goes to the message as it stands.** -/
theorem readHeader (p : HeaderFields) {m : HttpRequest} {l : HeaderLine} (hl : l.Readable)
    (hm : m.versionMajor ≠ 0) (rest : Bytes) :
    (headerScanner x).run ({ p with headersParseState := .headerStart }, m) (l.text ++ rest) =
      (headerScanner x).run
        ({ p with headerName := l.name, headerValue := l.value, headersParseState := .headerStart
          }.recordRaw l.text, { m with headers := x.insert m.headers l.entry }) rest := by
  unfold HeaderLine.text
  rw [List.append_assoc, List.append_assoc, ← recordRaw_append, ← recordRaw_append]
  exact (readNameColon (s := ({ p with headersParseState := .headerStart }, m)) (.inl rfl) hl.header _).trans
    (readAfterColon ((p.recordRaw l.name).recordRaw [colon]) hl hm rest)

/-- A line that is well formed and not readable ends the loop. -/
theorem refusesLine (p : HeaderFields) (m : HttpRequest) {l : HeaderLine} (hl : l.Ok) (hnot : ¬ l.Readable)
    (rest : Bytes) :
    ∃ s left, (headerScanner x).run ({ p with headersParseState := .headerStart }, m) (l.text ++ rest) =
      .stop (some .headerChar) s left := by
  obtain ⟨hblank, c, cs, hv, hsp, hvalue, hc⟩ := hl.unreadable hnot
  have htext : l.text ++ rest = l.name ++ colon :: (c :: (cs ++ stringCrlf ++ rest)) := by
    unfold HeaderLine.text
    rw [hblank, hv]
    simp
  have hname := readNameColon (x := x) (s := ({ p with headersParseState := .headerStart }, m)) (.inl rfl)
    hl.header (c :: (cs ++ stringCrlf ++ rest))
  obtain ⟨q, hstop⟩ := refusesGlued (x := x) (s := ({ ({ p with headersParseState := .headerStart
    }.recordRaw l.name).recordRaw [colon] with
      headerName := l.name, headerValue := [], headersParseState := .spaceBeforeHeaderValue }, m))
    rfl hsp hvalue hc (cs ++ stringCrlf ++ rest)
  rw [htext]
  exact ⟨_, _, hname.trans hstop⟩

/-! ## The end of the headers -/

theorem readFinalCrlf (p : HeaderFields) (m : HttpRequest) (rest : Bytes) :
    (headerScanner x).run ({ p with headersParseState := .headerStart }, m) (stringCrlf ++ rest) =
      .stop none
        ({ p with headersParseState := .expectingFinalNewline }.recordRaw stringCrlf, m) rest := by
  have hcr : headerSwitch x ({ p with headersParseState := .headerStart }.recordRaw [cr], m) cr =
      .take ({ p.recordRaw [cr] with headersParseState := .expectingFinalNewline }, m) := rfl
  have hlf : headerStep x ({ p.recordRaw [cr] with headersParseState := .expectingFinalNewline }, m) lf =
      .stop none ({ (p.recordRaw [cr]).recordRaw [lf] with
        headersParseState := .expectingFinalNewline }, m) true := rfl
  rw [show stringCrlf = [cr] ++ [lf] from rfl, ← recordRaw_append]
  exact (headerScanner_take hcr).trans (Scanner.ofSymbols_stop hlf)

/-- The text of header lines, one behind the other. -/
def headerText (ls : List HeaderLine) : Bytes := (ls.map HeaderLine.text).flatten

theorem headerText_cons (l : HeaderLine) (ls : List HeaderLine) (rest : Bytes) :
    headerText (l :: ls) ++ stringCrlf ++ rest = l.text ++ (headerText ls ++ stringCrlf ++ rest) := by
  unfold headerText
  rw [List.map_cons, List.flatten_cons, List.append_assoc, List.append_assoc, List.append_assoc]

/-- `add_header` for each line in turn. -/
def addHeaders (x : Externals) (d : Dict) (ls : List HeaderLine) : Dict :=
  ls.foldl (fun d l => x.insert d l.entry) d

theorem addHeaders_perm (x : Externals) : ∀ (ls : List HeaderLine) (d : Dict),
    (addHeaders x d ls).Perm (d ++ ls.map HeaderLine.entry) := by
  intro ls
  induction ls with
  | nil => intro d; rw [List.map_nil, List.append_nil]; exact List.Perm.refl d
  | cons l ls ih =>
    intro d
    refine (ih (x.insert d l.entry)).trans ?_
    rw [List.map_cons]
    refine ((x.insert_perm d l.entry).append_right _).trans ?_
    exact List.perm_middle.symm

/-- What the header loop leaves of its own fields, behind some lines and the empty line. -/
def headersEnd : HeaderFields → List HeaderLine → HeaderFields
  | p, [] => { p with headersParseState := .expectingFinalNewline }.recordRaw stringCrlf
  | p, l :: ls =>
    headersEnd ({ p with headerName := l.name, headerValue := l.value }.recordRaw l.text) ls

theorem headersEnd_requestLine : ∀ (ls : List HeaderLine) (p : HeaderFields),
    (headersEnd p ls).method = p.method ∧ (headersEnd p ls).resource = p.resource ∧
      (headersEnd p ls).queryString = p.queryString := by
  intro ls
  induction ls with
  | nil => intro p; exact ⟨rfl, rfl, rfl⟩
  | cons l ls ih =>
    intro p
    exact ih ({ p with headerName := l.name, headerValue := l.value }.recordRaw l.text)

/-- **A list of header lines goes to the message, and the empty line ends it.** -/
theorem readHeaders : ∀ (ls : List HeaderLine) (p : HeaderFields) (m : HttpRequest),
    (∀ l ∈ ls, l.Readable) → m.versionMajor ≠ 0 → ∀ rest : Bytes,
    (headerScanner x).run ({ p with headersParseState := .headerStart }, m)
        (headerText ls ++ stringCrlf ++ rest) =
      .stop none (headersEnd p ls, { m with headers := addHeaders x m.headers ls }) rest := by
  intro ls
  induction ls with
  | nil => intro p m _ _ rest; exact readFinalCrlf p m rest
  | cons l ls ih =>
    intro p m hls hm rest
    rw [headerText_cons, readHeader p (hls l List.mem_cons_self) hm]
    exact ih ({ p with headerName := l.name, headerValue := l.value }.recordRaw l.text)
      { m with headers := x.insert m.headers l.entry }
      (fun k hk => hls k (List.mem_cons_of_mem l hk)) hm rest

/-- **Well-formed lines are all readable, or the loop ends with an error.** -/
theorem refusesHeaders : ∀ (ls : List HeaderLine) (p : HeaderFields) (m : HttpRequest),
    (∀ l ∈ ls, l.Ok) → (¬ ∀ l ∈ ls, l.Readable) → m.versionMajor ≠ 0 → ∀ rest : Bytes,
    ∃ s left, (headerScanner x).run ({ p with headersParseState := .headerStart }, m)
        (headerText ls ++ stringCrlf ++ rest) = .stop (some .headerChar) s left := by
  intro ls
  induction ls with
  | nil => intro p m _ hnot; exact absurd (fun l hl => by cases hl) hnot
  | cons l ls ih =>
    intro p m hls hnot hm rest
    rw [headerText_cons]
    by_cases hl : l.Readable
    · rw [readHeader p hl hm]
      refine ih ({ p with headerName := l.name, headerValue := l.value }.recordRaw l.text)
        { m with headers := x.insert m.headers l.entry } (fun k hk => hls k (List.mem_cons_of_mem l hk))
        (fun h => hnot fun k hk => ?_) hm rest
      rcases List.mem_cons.mp hk with rfl | hk
      · exact hl
      · exact h k hk
    · exact refusesLine p m (hls l List.mem_cons_self) hl _

/-- `parse_headers` returns true where the header loop does. -/
theorem parseHeaders_done {g : Progress} {s : HeaderState} {rest : Bytes}
    (h : (headerScanner x).run (g.parser.toHeaderFields, g.msg) g.unread = .stop none s rest) :
    parseHeaders x g = ({ g with
      parser := { g.parser with toHeaderFields := s.1 }.account (g.unread.length - rest.length)
      msg := s.2
      unread := rest }, .true) := by
  unfold parseHeaders
  dsimp only
  rw [h]
  rfl

theorem parseHeadersCase_more {hook : Hook} {g : Progress} {s : HeaderState}
    (h : (headerScanner x).run (g.parser.toHeaderFields, g.msg) g.unread = .more s) (t : Nat) :
    parseHeadersCase x hook g t = ({ g with
      parser := { g.parser with bytesLastRead := 0, toHeaderFields := s.1 }.account g.unread.length
      msg := s.2
      unread := [] }, t + g.unread.length, .ok .indeterminate) := by
  unfold parseHeadersCase parseHeaders
  dsimp only
  rw [h]
  exact if_neg fun hn => by cases hn.1

theorem parseHeadersCase_error {hook : Hook} {g : Progress} {s : HeaderState} {e : ErrorValue} {rest : Bytes}
    (h : (headerScanner x).run (g.parser.toHeaderFields, g.msg) g.unread = .stop (some e) s rest)
    (t : Nat) :
    parseHeadersCase x hook g t = ({
      parser := { g.parser with bytesLastRead := 0, toHeaderFields := s.1 }
      msg := s.2
      ec := some e
      unread := rest }, t, .ok .false) := by
  unfold parseHeadersCase parseHeaders
  dsimp only
  rw [h]
  exact if_neg fun hn => by cases hn.1

end Pion.Proof
