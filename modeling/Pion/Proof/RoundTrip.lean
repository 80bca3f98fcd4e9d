import Pion.Proof.HeaderRun

/-!
# A request header block, written and read back

`prepare_buffers_for_send` writes the request line and the headers of a request.
`request_roundTrip` says that `parse_headers` reads the same request out of these
bytes, and stops right behind them.

What is written is not quite the request that was given: preparing it sets the
`Connection` header and one of the two framing headers, in place. The result is
compared with the request as it stands after that.
-/

namespace Pion.Proof

open Pion Lib

variable {x : Externals}

/-! ## Digits -/

theorem toText_ne_nil (b n : Nat) : toText b n ≠ [] := by
  unfold toText
  simp [Nat.toDigits_ne_nil]

theorem mem_toText {b : Nat} (hb : 1 < b) {n : Nat} {c : UInt8} (h : c ∈ toText b n) :
    ∃ d, d < b ∧ c = UInt8.ofNat d.digitChar.toNat := by
  unfold toText at h
  obtain ⟨k, hk, rfl⟩ := List.mem_map.mp h
  obtain ⟨d, hd, rfl⟩ := mem_toDigits hb n k hk
  exact ⟨d, hd, rfl⟩

theorem isDigit_of_mem_toString {n : Nat} {c : UInt8} (h : c ∈ toString n) : isDigit c = true := by
  obtain ⟨d, hd, rfl⟩ := mem_toText (by decide) h
  have hall : ∀ d, d < 10 → isDigit (UInt8.ofNat d.digitChar.toNat) = true := by decide
  exact hall d hd

/-- What the version states make of a string of digits. -/
def readDigits (w : Bytes) : UInt16 := w.foldl (fun n c => n * 10 + digitValue c) 0

theorem readDigits_append (w : Bytes) (c : UInt8) :
    readDigits (w ++ [c]) = readDigits w * 10 + digitValue c := by
  unfold readDigits
  rw [List.foldl_append]
  rfl

theorem digitValue_digitChar : ∀ d, d < 10 →
    digitValue (UInt8.ofNat d.digitChar.toNat) = UInt16.ofNat d := by
  decide

/-- **A version number is read back.** -/
theorem readDigits_toString (n : UInt16) : readDigits (toString n.toNat) = n := by
  have hread : readDigits (toString n.toNat) = UInt16.ofNat n.toNat := by
    unfold readDigits Pion.toString toText
    rw [List.foldl_map]
    refine foldl_toDigits (e := UInt16.ofNat) (by decide) ?_ n.toNat
    intro k d hd
    rw [digitValue_digitChar d hd, UInt16.ofNat_add, UInt16.ofNat_mul]
    rfl
  rw [hread, UInt16.ofNat_toNat]

/-! ## The request line -/

section requestLine

variable (p : HeaderFields) (m : HttpRequest)

theorem readMethod {w : Bytes} (hne : w ≠ []) (htok : ∀ c ∈ w, TokenByte c)
    (hlen : w.length ≤ methodMax) (rest : Bytes) :
    (headerScanner x).run ({ p with headersParseState := .methodStart }, m) (w ++ rest) =
      (headerScanner x).run
        ({ p with method := w, headersParseState := .method }.recordRaw w, m) rest := by
  refine readWordFrom (fun u => ({ p with method := u, headersParseState := .method }, m))
    hne htok hlen ?_ ?_ rest
  · -- blanks and line ends are skipped here; a token byte is neither
    intro c hc
    unfold headerSwitch
    dsimp only [HeaderFields.recordRaw]
    rw [if_pos ⟨hc.ne_of_special rfl, ne_of_control hc.not_control rfl, ne_of_control hc.not_control rfl⟩,
      if_neg (Bool.eq_false_iff.mp hc)]
  · intro u c hc hu
    unfold headerSwitch
    dsimp only [HeaderFields.recordRaw]
    rw [if_neg (hc.ne_of_special rfl), if_neg (Bool.eq_false_iff.mp hc), if_neg (Nat.not_le.mpr hu)]

/-- A byte that may stand in a query string. -/
def QueryByte (c : UInt8) : Prop := isControl c = false ∧ c ≠ sp

/-- A byte that may stand in a resource. -/
def ResourceByte (c : UInt8) : Prop := QueryByte c ∧ c ≠ question

instance (c : UInt8) : Decidable (QueryByte c) := inferInstanceAs (Decidable (_ ∧ _))

instance (c : UInt8) : Decidable (ResourceByte c) := inferInstanceAs (Decidable (_ ∧ _))

theorem readResource {w : Bytes} (hbyte : ∀ c ∈ w, ResourceByte c) (hlen : w.length ≤ resourceMax)
    (rest : Bytes) :
    (headerScanner x).run ({ p with resource := [], headersParseState := .uriStem }, m) (w ++ rest) =
      (headerScanner x).run
        ({ p with resource := w, headersParseState := .uriStem }.recordRaw w, m) rest := by
  have hroom : 0 + w.length ≤ resourceMax := by omega
  refine readWord (fun u => ({ p with resource := u, headersParseState := .uriStem }, m)) hbyte hroom ?_ rest
  rintro u c ⟨⟨hctl, hsp⟩, hq⟩ hu
  unfold headerSwitch
  dsimp only [HeaderFields.recordRaw]
  rw [if_neg hsp, if_neg hq, if_neg (ne_of_control hctl rfl), if_neg (ne_of_control hctl rfl),
    if_neg (Bool.eq_false_iff.mp hctl), if_neg (by omega)]

theorem readQuery {w : Bytes} (hbyte : ∀ c ∈ w, QueryByte c) (hlen : w.length ≤ queryStringMax)
    (rest : Bytes) :
    (headerScanner x).run ({ p with queryString := [], headersParseState := .uriQuery }, m) (w ++ rest) =
      (headerScanner x).run
        ({ p with queryString := w, headersParseState := .uriQuery }.recordRaw w, m) rest := by
  have hroom : 0 + w.length ≤ queryStringMax := by omega
  refine readWord (fun u => ({ p with queryString := u, headersParseState := .uriQuery }, m)) hbyte hroom ?_ rest
  rintro u c ⟨hctl, hsp⟩ hu
  unfold headerSwitch
  dsimp only [HeaderFields.recordRaw]
  rw [if_neg hsp, if_neg (ne_of_control hctl rfl), if_neg (ne_of_control hctl rfl),
    if_neg (Bool.eq_false_iff.mp hctl), if_neg (by omega)]

theorem isDigit.ne {c d : UInt8} (h : isDigit c = true) (hd : isDigit d = false) : c ≠ d := by
  intro he
  rw [he, hd] at h
  cases h

theorem readDigits_singleton (c : UInt8) : readDigits [c] = digitValue c := by
  unfold readDigits
  simp

/-- The major version, behind `HTTP/`. -/
theorem readVersionMajor {w : Bytes} (hne : w ≠ []) (hdig : ∀ c ∈ w, isDigit c = true) (rest : Bytes) :
    (headerScanner x).run ({ p with headersParseState := .httpVersionMajorStart }, m) (w ++ rest) =
      (headerScanner x).run ({ p with headersParseState := .httpVersionMajor }.recordRaw w,
        { m with versionMajor := readDigits w, firstLine := [] }) rest := by
  refine readWordFrom (fun u => ({ p with headersParseState := .httpVersionMajor },
    { m with versionMajor := readDigits u, firstLine := [] })) hne hdig (Nat.le_refl _) ?_ ?_ rest
  · intro c hc
    unfold headerSwitch headerGoto
    dsimp only [HeaderFields.recordRaw]
    rw [if_neg (by simp [hc]), readDigits_singleton]
  · intro u c hc _
    unfold headerSwitch
    dsimp only [HeaderFields.recordRaw]
    rw [if_neg (isDigit.ne hc rfl), if_pos hc, ← readDigits_append]

/-- The minor version, behind the dot. -/
theorem readVersionMinor {w : Bytes} (hne : w ≠ []) (hdig : ∀ c ∈ w, isDigit c = true) (rest : Bytes) :
    (headerScanner x).run ({ p with headersParseState := .httpVersionMinorStart }, m) (w ++ rest) =
      (headerScanner x).run ({ p with headersParseState := .httpVersionMinor }.recordRaw w,
        { m with versionMinor := readDigits w, firstLine := [] }) rest := by
  refine readWordFrom (fun u => ({ p with headersParseState := .httpVersionMinor },
    { m with versionMinor := readDigits u, firstLine := [] })) hne hdig (Nat.le_refl _) ?_ ?_ rest
  · intro c hc
    unfold headerSwitch headerGoto
    dsimp only [HeaderFields.recordRaw]
    rw [if_neg (by simp [hc]), readDigits_singleton]
  · intro u c hc _
    unfold headerSwitch
    dsimp only [HeaderFields.recordRaw]
    rw [if_neg (isDigit.ne hc rfl), if_neg (isDigit.ne hc rfl), if_neg (isDigit.ne hc rfl), if_pos hc,
      ← readDigits_append]

/-- `HTTP/`. -/
theorem readHttp (rest : Bytes) :
    (headerScanner x).run ({ p with headersParseState := .httpVersionH }, m) (stringHttpVersion ++ rest) =
      (headerScanner x).run
        ({ p with headersParseState := .httpVersionMajorStart }.recordRaw stringHttpVersion, m) rest := by
  -- one state for each letter
  have hstep : ∀ (q : HeaderFields) (c : UInt8) (st st' : HeaderParseState) (rest : Bytes),
      headerSwitch x ({ q with headersParseState := st }.recordRaw [c], m) c =
        .take ({ q.recordRaw [c] with headersParseState := st' }, m) →
      (headerScanner x).run ({ q with headersParseState := st }, m) (c :: rest) =
        (headerScanner x).run ({ q.recordRaw [c] with headersParseState := st' }, m) rest :=
    fun _ _ _ _ _ h => headerScanner_take h
  have hraw : p.recordRaw stringHttpVersion =
      ((((p.recordRaw [72]).recordRaw [84]).recordRaw [84]).recordRaw [80]).recordRaw [slash] := by
    rw [recordRaw_append, recordRaw_append, recordRaw_append, recordRaw_append]
    rfl
  rw [show stringHttpVersion ++ rest = 72 :: 84 :: 84 :: 80 :: slash :: rest from rfl,
    hstep p 72 .httpVersionH .httpVersionT1 _ rfl, hstep _ 84 .httpVersionT1 .httpVersionT2 _ rfl,
    hstep _ 84 .httpVersionT2 .httpVersionP _ rfl, hstep _ 80 .httpVersionP .httpVersionSlash _ rfl,
    hstep _ slash .httpVersionSlash .httpVersionMajorStart _ rfl, ← hraw]
  rfl

end requestLine

/-- The version string. -/
theorem readVersion (p : HeaderFields) (m : HttpRequest) (major minor : UInt16) (rest : Bytes) :
    (headerScanner x).run ({ p with headersParseState := .httpVersionH }, m)
        (stringHttpVersion ++ (toString major.toNat ++ ([dot] ++ (toString minor.toNat ++ rest)))) =
      (headerScanner x).run ({ p with headersParseState := .httpVersionMinor }.recordRaw
          (stringHttpVersion ++ (toString major.toNat ++ ([dot] ++ toString minor.toNat))),
        { m with versionMajor := major, versionMinor := minor, firstLine := [] }) rest := by
  have hdig : ∀ n : UInt16, ∀ c ∈ toString n.toNat, isDigit c = true :=
    fun n c hc => isDigit_of_mem_toString hc
  let p₁ := p.recordRaw stringHttpVersion
  let p₂ := p₁.recordRaw (toString major.toNat)
  let p₃ := p₂.recordRaw [dot]
  let m₂ : HttpRequest := { m with versionMajor := readDigits (toString major.toNat), firstLine := [] }
  let m₄ : HttpRequest := { m₂ with versionMinor := readDigits (toString minor.toNat), firstLine := [] }
  have hdot : headerSwitch x ({ p₂ with headersParseState := .httpVersionMajor }.recordRaw [dot], m₂) dot =
      .take ({ p₃ with headersParseState := .httpVersionMinorStart }, m₂) := rfl
  have hm : m₄ = { m with versionMajor := major, versionMinor := minor, firstLine := [] } := by
    show { m with
      versionMajor := readDigits (toString major.toNat)
      versionMinor := readDigits (toString minor.toNat)
      firstLine := [] } = _
    rw [readDigits_toString, readDigits_toString]
  simp only [← recordRaw_append]
  rw [← hm]
  refine (readHttp p m _).trans ?_
  refine (readVersionMajor p₁ m (toText_ne_nil 10 major.toNat) (hdig major) _).trans ?_
  refine (headerScanner_take hdot).trans ?_
  exact readVersionMinor p₃ m₂ (toText_ne_nil 10 minor.toNat) (hdig minor) rest

/-- A request whose header block can be read back. -/
@[mk_iff]
structure Serialisable (r : HttpRequest) : Prop where
  method_ne : r.method ≠ []
  method_token : ∀ c ∈ r.method, TokenByte c
  method_length : r.method.length ≤ methodMax
  resource_byte : ∀ c ∈ r.resource, ResourceByte c
  resource_length : r.resource.length ≤ resourceMax
  query_byte : ∀ c ∈ r.queryString, QueryByte c
  query_length : r.queryString.length ≤ queryStringMax
  version : 1 ≤ r.versionMajor
  headers : ∀ e ∈ r.headers, HeaderOk e
  /-- The cached first line, if there is one, is not stale. -/
  firstLine : r.firstLine = [] ∨ r.firstLine = r.updateFirstLine
  /-- A `size_t`. -/
  contentLength : r.contentLength < 2 ^ 64

instance (r : HttpRequest) : Decidable (Serialisable r) := decidable_of_iff' _ (serialisable_iff r)

theorem Serialisable.versionMajor_ne {r : HttpRequest} (hr : Serialisable r) : r.versionMajor ≠ 0 := by
  intro h
  have hv := hr.version
  rw [h] at hv
  exact absurd hv (by decide)

/-- The query string, from the end of the resource. -/
theorem readQueryPart (p : HeaderFields) (m : HttpRequest) {q : Bytes} (hp : p.queryString = [])
    (hbyte : ∀ c ∈ q, QueryByte c) (hlen : q.length ≤ queryStringMax) (rest : Bytes) :
    (headerScanner x).run ({ p with headersParseState := .uriStem }, m)
        ((if q = [] then [] else question :: q) ++ ([sp] ++ rest)) =
      (headerScanner x).run ({ p with queryString := q, headersParseState := .httpVersionH
        }.recordRaw ((if q = [] then [] else question :: q) ++ [sp]), m) rest := by
  by_cases hq : q = []
  · subst hq
    rw [if_pos rfl]
    have hsp : headerSwitch x ({ p with headersParseState := .uriStem }.recordRaw [sp], m) sp =
        .take ({ p with headersParseState := .httpVersionH }.recordRaw [sp], m) := rfl
    -- the query string was empty before the request line
    have hself : { p with queryString := [] } = p := by
      cases p
      dsimp only at hp
      subst hp
      rfl
    refine (headerScanner_take hsp).trans ?_
    show _ = (headerScanner x).run ({ { p with queryString := [] } with
      headersParseState := .httpVersionH }.recordRaw [sp], m) rest
    rw [hself]
    rfl
  · rw [if_neg hq]
    let p₁ := p.recordRaw [question]
    have hmark : headerSwitch x ({ p with headersParseState := .uriStem }.recordRaw [question], m)
        question = .take ({ p₁ with queryString := [], headersParseState := .uriQuery }, m) := rfl
    have hsp : headerSwitch x (({ p₁ with queryString := q, headersParseState := .uriQuery
        }.recordRaw q).recordRaw [sp], m) sp =
        .take (({ p₁ with queryString := q, headersParseState := .httpVersionH
          }.recordRaw q).recordRaw [sp], m) := rfl
    rw [← List.singleton_append, ← recordRaw_append, ← recordRaw_append, List.append_assoc]
    refine (headerScanner_take hmark).trans ?_
    refine (readQuery p₁ m hbyte hlen _).trans ?_
    exact headerScanner_take hsp

/-- The request line of a serialisable request, up to its end. -/
theorem readFirstLine (p : HeaderFields) (m : HttpRequest) {r : HttpRequest} (hr : Serialisable r)
    (hp : p.queryString = []) (rest : Bytes) :
    (headerScanner x).run ({ p with headersParseState := .methodStart }, m) (r.updateFirstLine ++ rest) =
      (headerScanner x).run ({ p with
          method := r.method, resource := r.resource, queryString := r.queryString,
          headersParseState := .httpVersionMinor }.recordRaw r.updateFirstLine,
        { m with versionMajor := r.versionMajor, versionMinor := r.versionMinor, firstLine := [] })
        rest := by
  let p₁ := p.recordRaw r.method
  let p₂ : HeaderFields := { p₁ with method := r.method }.recordRaw [sp]
  let p₃ : HeaderFields := { p₂ with resource := r.resource }.recordRaw r.resource
  let q := if r.queryString = [] then [] else question :: r.queryString
  let p₄ : HeaderFields := ({ p₃ with queryString := r.queryString }.recordRaw q).recordRaw [sp]
  have hline : r.updateFirstLine = r.method ++ ([sp] ++ (r.resource ++ (q ++ [sp] ++
      (stringHttpVersion ++ (toString r.versionMajor.toNat ++ ([dot] ++
        toString r.versionMinor.toNat)))))) := by
    unfold HttpRequest.updateFirstLine HttpMessage.getVersionString
    simp [q]
  have hsp : headerSwitch x (({ p with method := r.method, headersParseState := .method
      }.recordRaw r.method).recordRaw [sp], m) sp =
      .take ({ p₂ with resource := [], headersParseState := .uriStem }, m) := rfl
  rw [hline]
  simp only [List.append_assoc]
  refine (readMethod p m hr.method_ne hr.method_token hr.method_length _).trans ?_
  refine (headerScanner_take hsp).trans ?_
  refine (readResource p₂ m hr.resource_byte hr.resource_length _).trans ?_
  refine (readQueryPart p₃ m hp hr.query_byte hr.query_length _).trans ?_
  rw [← recordRaw_append]
  refine (readVersion p₄ m r.versionMajor r.versionMinor rest).trans ?_
  simp only [← recordRaw_append]
  rfl

/-- **The request line of a serialisable request is read back.** -/
theorem readRequestLine (p : HeaderFields) (m : HttpRequest) {r : HttpRequest} (hr : Serialisable r)
    (hp : p.queryString = []) (rest : Bytes) :
    (headerScanner x).run ({ p with headersParseState := .methodStart }, m)
        (r.updateFirstLine ++ stringCrlf ++ rest) =
      (headerScanner x).run ({ p with
          method := r.method, resource := r.resource, queryString := r.queryString,
          headersParseState := .headerStart }.recordRaw (r.updateFirstLine ++ stringCrlf),
        { m with versionMajor := r.versionMajor, versionMinor := r.versionMinor, firstLine := [] })
        rest := by
  let p₁ : HeaderFields := { p with
    method := r.method, resource := r.resource, queryString := r.queryString }.recordRaw r.updateFirstLine
  let m₁ : HttpRequest :=
    { m with versionMajor := r.versionMajor, versionMinor := r.versionMinor, firstLine := [] }
  have hcr : headerSwitch x ({ p₁ with headersParseState := .httpVersionMinor }.recordRaw [cr], m₁) cr =
      .take ({ p₁.recordRaw [cr] with headersParseState := .expectingNewline }, m₁) := rfl
  have hraw : p₁.recordRaw stringCrlf = (p₁.recordRaw [cr]).recordRaw [lf] :=
    (recordRaw_append p₁ [cr] [lf]).symm
  rw [List.append_assoc]
  refine (readFirstLine p m hr hp _).trans ?_
  refine (headerScanner_take hcr).trans ?_
  refine (readNewline (p₁.recordRaw [cr]) m₁ hr.versionMajor_ne rest).trans ?_
  rw [← recordRaw_append]
  exact congrArg (fun q : HeaderFields =>
    (headerScanner x).run ({ q with headersParseState := .headerStart }, m₁) rest) hraw.symm

/-! ## The headers that are written -/

/-- A header as `append_headers` writes it. -/
def headerLine (e : Bytes × Bytes) : HeaderLine := { name := e.1, value := e.2 }

theorem appendHeaders_flatten (m : HttpMessage) :
    m.appendHeaders.flatten = headerText (m.headers.map headerLine) ++ stringCrlf := by
  have hlines : ∀ d : Dict,
      ((d.map fun e => [e.1, headerNameValueDelimiter, e.2, stringCrlf]).flatten).flatten =
        headerText (d.map headerLine) := by
    intro d
    induction d with
    | nil => rfl
    | cons e d ih =>
      have htext : (headerLine e).text = e.1 ++ (headerNameValueDelimiter ++ (e.2 ++ stringCrlf)) := rfl
      unfold headerText at ih ⊢
      simp only [List.map_cons, List.flatten_cons, List.flatten_append, List.flatten_nil,
        List.append_nil, ih, htext, List.append_assoc]
  unfold HttpMessage.appendHeaders
  rw [List.flatten_append, hlines]
  simp

/-- Changing a header leaves no header that could not be read back. -/
theorem changeValue_ok {d : Dict} {key value : Bytes} (hd : ∀ e ∈ d, HeaderOk e)
    (hkv : HeaderOk (key, value)) : ∀ e ∈ d.changeValue x key value, HeaderOk e := by
  unfold Dict.changeValue
  split
  · intro e he
    rcases List.mem_cons.mp ((x.insert_perm d (key, value)).mem_iff.mp he) with rfl | he
    · exact hkv
    · exact hd e he
  · clear * - hd hkv
    induction d with
    | nil => intro e he; cases he
    | cons f d ih =>
      intro e he
      unfold Dict.replace at he
      split at he
      · rcases List.mem_cons.mp he with rfl | he
        · have hf := hd f List.mem_cons_self
          exact ⟨hf.name_ne, hf.name_token, hf.name_length, hkv.value_byte, hkv.value_length⟩
        · exact hd e (List.mem_cons_of_mem f (List.mem_filter.mp he).1)
      · rcases List.mem_cons.mp he with rfl | he
        · exact hd e List.mem_cons_self
        · exact ih (fun k hk => hd k (List.mem_cons_of_mem f hk)) e he

theorem valueByte_of_isDigit {c : UInt8} (h : isDigit c = true) : ValueByte c := by
  refine Or.inr ?_
  unfold isDigit at h
  unfold isControl
  simp only [Bool.and_eq_true, decide_eq_true_eq] at h
  simp only [Bool.or_eq_false_iff, decide_eq_false_iff_not, beq_eq_false_iff_ne]
  omega

/-- A 64-bit number has at most 20 digits. -/
theorem toString_length {n : Nat} (h : n < 2 ^ 64) : (toString n).length ≤ 20 := by
  unfold Pion.toString toText
  rw [List.length_map]
  exact (Nat.length_toDigits_le_iff (by decide) (by decide)).mpr (by omega)

theorem toString_length_le {n : Nat} (h : n < 2 ^ 64) : (toString n).length ≤ headerValueMax :=
  Nat.le_trans (toString_length h) (by decide)

theorem prepareHeadersForSend_ok {m : HttpMessage} (hm : ∀ e ∈ m.headers, HeaderOk e)
    (hlen : m.contentLength < 2 ^ 64) (keepAlive usingChunks : Bool) :
    ∀ e ∈ (m.prepareHeadersForSend x keepAlive usingChunks).headers, HeaderOk e := by
  have hconn : HeaderOk (headerConnection, if keepAlive then str "Keep-Alive" else str "close") := by
    cases keepAlive <;> decide +kernel
  have hchunked : HeaderOk (headerTransferEncoding, str "chunked") := by decide +kernel
  have hlength : HeaderOk (headerContentLength, toString m.contentLength) := by
    have hname : HeaderOk (headerContentLength, []) := by decide +kernel
    exact ⟨hname.name_ne, hname.name_token, hname.name_length,
      fun c hc => valueByte_of_isDigit (isDigit_of_mem_toString hc), toString_length_le hlen⟩
  unfold HttpMessage.prepareHeadersForSend
  dsimp only
  generalize (if keepAlive then str "Keep-Alive" else str "close") = connection at hconn ⊢
  have h1 := changeValue_ok (x := x) hm hconn
  split
  · split
    · exact changeValue_ok h1 hchunked
    · exact h1
  · split
    · exact changeValue_ok h1 hlength
    · exact h1

/-- Preparing the headers changes nothing but the headers. -/
theorem prepareHeadersForSend_frame (m : HttpMessage) (keepAlive usingChunks : Bool) :
    m.prepareHeadersForSend x keepAlive usingChunks =
      { m with headers := (m.prepareHeadersForSend x keepAlive usingChunks).headers } := by
  unfold HttpMessage.prepareHeadersForSend
  dsimp only
  generalize (if keepAlive then str "Keep-Alive" else str "close") = connection
  split
  · split <;> rfl
  · split <;> rfl

/-- What `prepare_buffers_for_send` writes. -/
theorem prepareBuffersForSend_flatten {r : HttpRequest} (hr : Serialisable r)
    (keepAlive usingChunks : Bool) :
    (r.prepareBuffersForSend x keepAlive usingChunks).2.flatten =
      r.updateFirstLine ++ stringCrlf ++ (headerText
        ((r.prepareBuffersForSend x keepAlive usingChunks).1.headers.map headerLine) ++ stringCrlf) := by
  have hfirst : ∀ m : HttpMessage, m.firstLine = [] ∨ m.firstLine = r.updateFirstLine →
      (m.getFirstLine r.updateFirstLine).firstLine = r.updateFirstLine := by
    intro m hm
    unfold HttpMessage.getFirstLine
    split
    · rfl
    · rename_i hne
      exact hm.resolve_left hne
  have hline := hfirst (r.toHttpMessage.prepareHeadersForSend x keepAlive usingChunks)
    (by rw [prepareHeadersForSend_frame]; exact hr.firstLine)
  unfold HttpRequest.prepareBuffersForSend HttpMessage.prepareBuffersForSend
  dsimp only
  rw [List.flatten_append, appendHeaders_flatten, hline]
  simp

theorem getFirstLine_frame (m : HttpMessage) (line : Bytes) :
    m.getFirstLine line = { m with firstLine := (m.getFirstLine line).firstLine } := by
  unfold HttpMessage.getFirstLine
  split <;> rfl

/-- What preparing to send leaves of a request. -/
theorem prepareBuffersForSend_frame (r : HttpRequest) (keepAlive usingChunks : Bool) :
    (r.prepareBuffersForSend x keepAlive usingChunks).1 = { r with
      firstLine := (r.prepareBuffersForSend x keepAlive usingChunks).1.firstLine
      headers := (r.toHttpMessage.prepareHeadersForSend x keepAlive usingChunks).headers } := by
  unfold HttpRequest.prepareBuffersForSend HttpMessage.prepareBuffersForSend
  dsimp only
  rw [getFirstLine_frame, prepareHeadersForSend_frame]

/-- **Header block round trip.** What `prepare_buffers_for_send` writes for a request,
`parse_headers` on a new parser accepts, up to its last byte, as the same request. -/
theorem request_roundTrip (r : HttpRequest) (hr : Serialisable r) (keepAlive usingChunks : Bool)
    (max sizeGarbage readGarbage : Nat) (rest : Bytes) :
    let sent := r.prepareBuffersForSend x keepAlive usingChunks
    let read := parseHeaders x
      { parser := HttpParser.fresh max sizeGarbage readGarbage, msg := HttpRequest.fresh, ec := none,
        unread := sent.2.flatten ++ rest }
    read.2 = .true ∧ read.1.unread = rest ∧ read.1.ec = none ∧
      read.1.parser.method = sent.1.method ∧ read.1.parser.resource = sent.1.resource ∧
      read.1.parser.queryString = sent.1.queryString ∧
      read.1.msg.versionMajor = sent.1.versionMajor ∧ read.1.msg.versionMinor = sent.1.versionMinor ∧
      read.1.msg.headers.Perm sent.1.headers := by
  intro sent read
  -- sending changes the headers and the cached first line only
  have hframe : sent.1 = { r with
      firstLine := sent.1.firstLine
      headers := (r.toHttpMessage.prepareHeadersForSend x keepAlive usingChunks).headers } :=
    prepareBuffersForSend_frame r keepAlive usingChunks
  have hok : ∀ l ∈ sent.1.headers.map headerLine, l.Readable := by
    intro l hl
    obtain ⟨e, he, rfl⟩ := List.mem_map.mp hl
    rw [hframe] at he
    exact ⟨prepareHeadersForSend_ok hr.headers hr.contentLength keepAlive usingChunks e he,
      fun hb => by cases hb⟩
  let p : HeaderFields := (HttpParser.fresh max sizeGarbage readGarbage).toHeaderFields
  let p₁ : HeaderFields := { p with
    method := r.method, resource := r.resource, queryString := r.queryString
    }.recordRaw (r.updateFirstLine ++ stringCrlf)
  let m₁ : HttpRequest := { HttpRequest.fresh with
    versionMajor := r.versionMajor, versionMinor := r.versionMinor, firstLine := [] }
  have hrun : (headerScanner x).run (p, HttpRequest.fresh) (sent.2.flatten ++ rest) =
      .stop none (headersEnd p₁ (sent.1.headers.map headerLine),
        { m₁ with headers := addHeaders x [] (sent.1.headers.map headerLine) }) rest := by
    rw [show sent.2.flatten = _ from prepareBuffersForSend_flatten hr keepAlive usingChunks,
      List.append_assoc]
    exact (readRequestLine p HttpRequest.fresh hr rfl _).trans
      (readHeaders (sent.1.headers.map headerLine) p₁ m₁ hok hr.versionMajor_ne rest)
  obtain ⟨h1, h2, h3⟩ := headersEnd_requestLine (sent.1.headers.map headerLine) p₁
  -- the headers are inserted one by one, in whatever order the map keeps them
  have hperm : (addHeaders x [] (sent.1.headers.map headerLine)).Perm sent.1.headers := by
    have h := addHeaders_perm x (sent.1.headers.map headerLine) []
    rw [List.nil_append, List.map_map] at h
    rwa [show HeaderLine.entry ∘ headerLine = id from rfl, List.map_id] at h
  rw [show read = _ from parseHeaders_done hrun]
  refine ⟨rfl, rfl, rfl, h1, h2, h3, ?_, ?_, hperm⟩
  · exact (congrArg (fun m : HttpRequest => m.versionMajor) hframe).symm
  · exact (congrArg (fun m : HttpRequest => m.versionMinor) hframe).symm

theorem request_roundTrip_query :
    let r : HttpRequest := { method := requestMethodPut, resource := str "/a", queryString := str "b=c",
                             headers := [(str "Host", str "localhost"), (str "X", [])] }
    let sent := r.prepareBuffersForSend plainExternals true false
    let read := parseHeaders plainExternals
      { parser := HttpParser.fresh 100 0 0, msg := HttpRequest.fresh, ec := none,
        unread := sent.2.flatten ++ str "body" }
    sent.2.flatten = str "PUT /a?b=c HTTP/1.1\r\nHost: localhost\r\nX: \r\nConnection: Keep-Alive\r\nContent-Length: 0\r\n\r\n" ∧
      read.1.unread = str "body" ∧ read.1.parser.queryString = str "b=c" ∧
      read.1.msg.headers.Perm sent.1.headers := by
  have h := request_roundTrip (x := plainExternals)
    { method := requestMethodPut, resource := str "/a", queryString := str "b=c",
      headers := [(str "Host", str "localhost"), (str "X", [])] }
    (by decide +kernel) true false 100 0 0 (str "body")
  exact ⟨by decide +kernel, h.2.1, h.2.2.2.2.2.1, h.2.2.2.2.2.2.2.2⟩

end Pion.Proof
