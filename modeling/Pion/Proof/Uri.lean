import Pion.Proof.RoundTrip
import Pion.Proof.Search

/-!
# URIs come apart

The places where `parse_uri` cuts a URI are those of the first `://`, of the first slash behind
it, and of the first colon in between. The function is read here in terms of the pieces; what it
makes of a URI that is put together from components, and what of it depends on the variables
that it writes to, is then a matter of the cases.
-/

namespace Pion.Proof

open Pion

/-! ## The pieces -/

/-- What is in front of the first `://`, if there is one. -/
def uriProto (uri : Bytes) : Bytes := (findSub (str "://") uri).elim [] (substr uri 0)

/-- Where the server begins. -/
def protoLen (uri : Bytes) : Nat := (findSub (str "://") uri).elim 0 (· + 3)

/-- What is behind the `://`, or all of it. -/
def afterProto (uri : Bytes) : Bytes := uri.drop (protoLen uri)

/-- The server and its port. -/
def uriServer (uri : Bytes) : Bytes := (afterProto uri).takeWhile (· ≠ slash)

def uriHost (uri : Bytes) : Bytes := (uriServer uri).takeWhile (· ≠ colon)

/-- What is written for the port, if there is a colon. -/
def uriPortText (uri : Bytes) : Option Bytes :=
  if colon ∈ uriServer uri then some ((uriServer uri).drop ((uriHost uri).length + 1)) else none

/-- The path and the query, if there is a slash. -/
def uriPathQuery (uri : Bytes) : Bytes := (afterProto uri).drop (uriServer uri).length

/-- The port that is written, or else the one of the protocol. -/
def uriPort (parseUint16 : Bytes → Option UInt16) (uri : Bytes) : Option UInt16 :=
  match uriPortText uri with
  | some t => parseUint16 t
  | none => some (defaultPort (uriProto uri))

/-- What `parse_uri` makes of the pieces. -/
def parsePieces (parseUint16 : Bytes → Option UInt16) (uri : Bytes) (out : UriParts) :
    UriParts × Bool :=
  let out := { out with
    proto := uriProto uri
    host := uriHost uri
    path := if slash ∈ afterProto uri then out.path else [slash] }
  if uriHost uri = [] then (out, false)
  else
    match uriPort parseUint16 uri with
    | none => (out, false)
    | some port =>
      if slash ∈ afterProto uri then
        ({ out with
            port := port
            path := (uriPathQuery uri).takeWhile (· ≠ question)
            query := (uriPathQuery uri).drop (((uriPathQuery uri).takeWhile (· ≠ question)).length + 1) },
          true)
      else ({ out with port := port }, true)

/-- Cutting at the first place of a byte. -/
theorem substr_byte (a : UInt8) (s : Bytes) :
    substr s 0 ((findFrom [a] s 0).getD s.length) = s.takeWhile (· ≠ a) := by
  rw [findFrom_byte, List.drop_zero]
  unfold substr
  by_cases ha : a ∈ s
  · obtain ⟨u, v, rfl, hu⟩ := List.eq_append_cons_of_mem ha
    rw [if_pos ha, takeWhile_ne_append hu v, Option.getD_some, Nat.zero_add, List.drop_zero,
      List.take_left]
  · rw [if_neg ha, takeWhile_ne_of_not_mem ha, Option.getD_none, List.drop_zero, List.take_length]

theorem findFrom_slash (uri : Bytes) : findFrom [slash] uri (protoLen uri) =
    if slash ∈ afterProto uri then some (protoLen uri + (uriServer uri).length) else none :=
  findFrom_byte slash uri (protoLen uri)

theorem uriServer_front (uri : Bytes) : uriServer uri <+: afterProto uri := List.takeWhile_prefix _

/-- The server ends at the first slash, or at the end. -/
theorem substr_server (uri : Bytes) :
    substr uri (protoLen uri) ((findFrom [slash] uri (protoLen uri)).getD uri.length - protoLen uri) =
      uriServer uri := by
  show (afterProto uri).take _ = uriServer uri
  rw [findFrom_slash]
  by_cases h : slash ∈ afterProto uri
  · rw [if_pos h, Option.getD_some, Nat.add_sub_cancel_left]
    exact (List.prefix_iff_eq_take.mp (uriServer_front uri)).symm
  · have hserver : uriServer uri = afterProto uri := takeWhile_ne_of_not_mem h
    have hlen : (afterProto uri).length = uri.length - protoLen uri := List.length_drop
    rw [if_neg h, Option.getD_none, hserver, ← hlen, List.take_length]

theorem uriPort_eq (parseUint16 : Bytes → Option UInt16) (uri : Bytes) :
    ((findFrom [colon] (uriServer uri) 0).elim (some (defaultPort (uriProto uri)))
      fun i => parseUint16 ((uriServer uri).drop (i + 1))) = uriPort parseUint16 uri := by
  unfold uriPort uriPortText
  rw [findFrom_byte, List.drop_zero]
  by_cases hcolon : colon ∈ uriServer uri
  · rw [if_pos hcolon, if_pos hcolon, Nat.zero_add]
    rfl
  · rw [if_neg hcolon, if_neg hcolon]
    rfl

/-- The query, behind the first question mark. -/
theorem query_eq (path : Bytes) :
    (findFrom [question] path 0).elim [] (fun i => path.drop (i + 1)) =
      path.drop ((path.takeWhile (· ≠ question)).length + 1) := by
  rw [findFrom_byte, List.drop_zero]
  by_cases h : question ∈ path
  · rw [if_pos h, Nat.zero_add]
    rfl
  · rw [if_neg h, takeWhile_ne_of_not_mem h, List.drop_eq_nil_of_le (Nat.le_succ _)]
    rfl

theorem drop_server (uri : Bytes) : uri.drop (protoLen uri + (uriServer uri).length) = uriPathQuery uri :=
  List.drop_drop.symm

/-- The path is there if there is a slash. -/
theorem server_lt {uri : Bytes} (h : slash ∈ afterProto uri) :
    protoLen uri + (uriServer uri).length < uri.length := by
  obtain ⟨u, w, hrest, hu⟩ := List.eq_append_cons_of_mem h
  have hserver : uriServer uri = u := by
    unfold uriServer
    rw [hrest, takeWhile_ne_append hu w]
  have hlen : (afterProto uri).length = uri.length - protoLen uri := List.length_drop
  rw [hrest, List.length_append, List.length_cons] at hlen
  rw [hserver]
  omega

/-- **`parse_uri` takes the URI to its pieces.** -/
theorem parseUri_pieces (parseUint16 : Bytes → Option UInt16) (uri : Bytes) (out : UriParts) :
    parseUri parseUint16 uri out = parsePieces parseUint16 uri out := by
  unfold parseUri
  dsimp only
  rw [show (findSub (str "://") uri).elim 0 (· + 3) = protoLen uri from rfl,
    show (findSub (str "://") uri).elim [] (substr uri 0) = uriProto uri from rfl,
    substr_server, substr_byte, uriPort_eq, query_eq, substr_byte]
  unfold parsePieces
  rw [findFrom_slash]
  by_cases h : slash ∈ afterProto uri
  · simp only [if_pos h, Option.getD_some, reduceCtorEq, if_false, drop_server, if_pos (server_lt h)]
    rfl
  · simp only [if_neg h, Option.getD_none, if_true, if_neg (Nat.lt_irrefl _)]
    rfl

/-! ## Putting a URI together -/

structure Uri where
  scheme : Bytes
  host : Bytes
  port : Option UInt16
  path : Bytes
  query : Option Bytes

namespace Uri

/-- The host, and the port in decimal. -/
def server (u : Uri) : Bytes := u.host ++ u.port.elim [] fun n => colon :: toString n.toNat

def pathQuery (u : Uri) : Bytes := u.path ++ u.query.elim [] fun q => question :: q

def text (u : Uri) : Bytes := u.scheme ++ (str "://" ++ (u.server ++ u.pathQuery))

/-- What `parse_uri` should find. -/
def parts (u : Uri) : UriParts where
  proto := u.scheme
  host := u.host
  port := u.port.getD (defaultPort u.scheme)
  path := u.path
  query := u.query.getD []

/-- No component contains the separator that ends it. -/
@[mk_iff]
structure Ok (u : Uri) : Prop where
  scheme : ∀ c ∈ u.scheme, c ≠ colon ∧ c ≠ slash
  host_ne : u.host ≠ []
  host : ∀ c ∈ u.host, c ≠ slash ∧ c ≠ colon
  path_start : u.path.head? = some slash
  path : question ∉ u.path

instance (u : Uri) : Decidable u.Ok := decidable_of_iff' _ (ok_iff u)

variable {u : Uri}

theorem Ok.pathQuery (hu : u.Ok) : ∃ w, u.pathQuery = slash :: w := by
  obtain ⟨w, hw⟩ := List.head?_eq_some_iff.mp hu.path_start
  exact ⟨_, by rw [Uri.pathQuery, hw, List.cons_append]⟩

theorem Ok.findSub_scheme (hu : u.Ok) : findSub (str "://") u.text = some u.scheme.length :=
  findSub_behind (fun h => (hu.scheme colon h).1 rfl) [slash, slash] _

theorem Ok.uriProto_text (hu : u.Ok) : uriProto u.text = u.scheme := by
  unfold uriProto
  rw [hu.findSub_scheme]
  exact List.take_left

theorem Ok.afterProto_text (hu : u.Ok) : afterProto u.text = u.server ++ u.pathQuery := by
  unfold afterProto protoLen
  rw [hu.findSub_scheme]
  show u.text.drop (u.scheme.length + (str "://").length) = _
  unfold text
  rw [← List.drop_drop, List.drop_left, List.drop_left]

theorem Ok.slash_not_mem (hu : u.Ok) : slash ∉ u.server := by
  intro h
  rcases List.mem_append.mp h with h | h
  · exact (hu.host slash h).1 rfl
  · cases hp : u.port with
    | none =>
      rw [hp] at h
      cases h
    | some n =>
      rw [hp] at h
      rcases List.mem_cons.mp h with h | h
      · cases h
      · exact absurd (isDigit_of_mem_toString h) (by decide)

theorem Ok.uriServer_text (hu : u.Ok) : uriServer u.text = u.server := by
  obtain ⟨w, hw⟩ := hu.pathQuery
  unfold uriServer
  rw [hu.afterProto_text, hw, takeWhile_ne_append hu.slash_not_mem]

theorem Ok.uriPathQuery_text (hu : u.Ok) : uriPathQuery u.text = u.pathQuery := by
  unfold uriPathQuery
  rw [hu.uriServer_text, hu.afterProto_text, List.drop_left]

theorem Ok.uriHost_text (hu : u.Ok) : uriHost u.text = u.host := by
  have hcolon : colon ∉ u.host := fun h => (hu.host colon h).2 rfl
  unfold uriHost
  rw [hu.uriServer_text, server]
  cases u.port with
  | none => rw [Option.elim_none, List.append_nil, takeWhile_ne_of_not_mem hcolon]
  | some n => rw [Option.elim_some, takeWhile_ne_append hcolon]

theorem Ok.uriPort_text (hu : u.Ok) {parseUint16 : Bytes → Option UInt16}
    (hparse : ∀ n : UInt16, parseUint16 (toString n.toNat) = some n) :
    uriPort parseUint16 u.text = some (u.port.getD (defaultPort u.scheme)) := by
  have hcolon : colon ∉ u.host := fun h => (hu.host colon h).2 rfl
  unfold uriPort uriPortText
  rw [hu.uriServer_text, hu.uriHost_text, hu.uriProto_text, server]
  cases u.port with
  | none =>
    rw [Option.elim_none, List.append_nil, if_neg hcolon]
    rfl
  | some n =>
    rw [Option.elim_some, if_pos (List.mem_append_right _ List.mem_cons_self), ← List.drop_drop,
      List.drop_left]
    exact hparse n

end Uri

/--
**A URI comes apart into its components**, with any of them absent that may be, and whatever
separators stand in the query. `parse_uint16` is relied on to read what is written in decimal.
-/
theorem parseUri_text (parseUint16 : Bytes → Option UInt16)
    (hparse : ∀ n : UInt16, parseUint16 (toString n.toNat) = some n) (u : Uri) (hu : u.Ok)
    (out : UriParts) : parseUri parseUint16 u.text out = (u.parts, true) := by
  obtain ⟨w, hw⟩ := hu.pathQuery
  have hslash : slash ∈ afterProto u.text := by
    rw [hu.afterProto_text, hw]
    exact List.mem_append_right _ List.mem_cons_self
  have hpath : u.pathQuery.takeWhile (· ≠ question) = u.path ∧
      u.pathQuery.drop (u.path.length + 1) = u.query.getD [] := by
    unfold Uri.pathQuery
    cases u.query with
    | none =>
      rw [Option.elim_none, List.append_nil, takeWhile_ne_of_not_mem hu.path]
      exact ⟨rfl, List.drop_eq_nil_of_le (Nat.le_succ _)⟩
    | some q =>
      rw [Option.elim_some, takeWhile_ne_append hu.path, ← List.drop_drop, List.drop_left]
      exact ⟨rfl, rfl⟩
  rw [parseUri_pieces, parsePieces, hu.uriHost_text, hu.uriPort_text hparse, hu.uriProto_text,
    hu.uriPathQuery_text, hpath.1, hpath.2]
  dsimp only
  rw [if_neg hu.host_ne, if_pos hslash]
  rfl

/-- The decimal number that a string of digits writes, if it fits. -/
def parseDecimal16 (s : Bytes) : Option UInt16 :=
  (parseDecimal s).bind fun n => if n.toNat < 2 ^ 16 then some (UInt16.ofNat n.toNat) else none

theorem parseDecimal_toString {n : Nat} (h : n < 2 ^ 64) :
    parseDecimal (toString n) = some (UInt64.ofNat n) := by
  have hvalue : (toString n).foldl (fun n c => n * 10 + (c.toNat - 48)) 0 = n := by
    have hdigit : ∀ d, d < 10 → (UInt8.ofNat d.digitChar.toNat).toNat - 48 = d := by decide
    unfold Pion.toString toText
    rw [List.foldl_map]
    refine Lib.foldl_toDigits (e := id) (by decide) ?_ n
    intro k d hd
    rw [hdigit d hd]
    rfl
  have hne : toString n ≠ [] := by
    intro he
    have := Nat.length_toDigits_pos (b := 10) (n := n)
    rw [Pion.toString, toText, List.map_eq_nil_iff] at he
    rw [he] at this
    exact absurd this (by decide)
  have hall : (toString n).all isDigit = true :=
    List.all_eq_true.mpr fun c hc => isDigit_of_mem_toString hc
  unfold parseDecimal
  rw [hvalue, if_pos ⟨hne, hall, h⟩]

theorem parseDecimal16_toString (n : UInt16) : parseDecimal16 (toString n.toNat) = some n := by
  have hlt : n.toNat < 2 ^ 16 := n.toNat_lt
  have hsmall : (UInt64.ofNat n.toNat).toNat = n.toNat := UInt64.toNat_ofNat_of_lt' (Nat.lt_trans hlt (by decide))
  unfold parseDecimal16
  rw [parseDecimal_toString (by omega), Option.bind_some, hsmall, if_pos hlt, UInt16.ofNat_toNat]

/-- A query with all separators in it. -/
theorem parseUri_text_query :
    parseUri parseDecimal16 (str "ftp://h:8080/a/b?x=c://d:1/?") ⟨[], [], 1, [], str "old"⟩ =
      (⟨str "ftp", str "h", 8080, str "/a/b", str "x=c://d:1/?"⟩, true) :=
  parseUri_text parseDecimal16 parseDecimal16_toString
    ⟨str "ftp", str "h", some 8080, str "/a/b", some (str "x=c://d:1/?")⟩ (by decide) _

/-! ## What is left of an earlier URI -/

/-- If it is parsed, what becomes of the variables does not depend on what they held. -/
def DependsOnlyOnUri (parseUint16 : Bytes → Option UInt16) (uri : Bytes) : Prop :=
  ∀ out out', (parseUri parseUint16 uri out).2 = true →
    (parseUri parseUint16 uri out).1 = (parseUri parseUint16 uri out').1

/--
**When the results depend on the URI alone**: if it has a slash behind its protocol, that is a
path, or is not parsed because it has no host or a port that is no number. The query of a URI
without a path is the one that the variable held before.
-/
theorem dependsOnlyOnUri_iff (parseUint16 : Bytes → Option UInt16) (uri : Bytes) :
    DependsOnlyOnUri parseUint16 uri ↔
      slash ∈ afterProto uri ∨ uriHost uri = [] ∨ ∃ t ∈ uriPortText uri, parseUint16 t = none := by
  have hport : uriPort parseUint16 uri = none ↔ ∃ t ∈ uriPortText uri, parseUint16 t = none := by
    unfold uriPort
    cases uriPortText uri with
    | none => simp
    | some t => simp
  unfold DependsOnlyOnUri
  simp only [parseUri_pieces]
  rw [← hport]
  constructor
  · intro h
    by_contra hcond
    obtain ⟨hslash, hcond⟩ := not_or.mp hcond
    obtain ⟨hhost, hport⟩ := not_or.mp hcond
    obtain ⟨port, hport⟩ := Option.ne_none_iff_exists'.mp hport
    have hparsed : ∀ out, parsePieces parseUint16 uri out =
        (⟨uriProto uri, uriHost uri, port, [slash], out.query⟩, true) := by
      intro out
      unfold parsePieces
      dsimp only
      rw [if_neg hhost, hport]
      dsimp only
      rw [if_neg hslash, if_neg hslash]
    have hquery := h ⟨[], [], 0, [], []⟩ ⟨[], [], 0, [], [slash]⟩ (by rw [hparsed])
    rw [hparsed, hparsed] at hquery
    cases hquery
  · intro hcond out out' htrue
    unfold parsePieces at htrue ⊢
    dsimp only at htrue ⊢
    by_cases hhost : uriHost uri = []
    · rw [if_pos hhost] at htrue
      cases htrue
    rw [if_neg hhost] at htrue
    rw [if_neg hhost, if_neg hhost]
    cases hport : uriPort parseUint16 uri with
    | none =>
      rw [hport] at htrue
      cases htrue
    | some port =>
      have hslash : slash ∈ afterProto uri := by
        rcases hcond with h | h | h
        · exact h
        · exact absurd h hhost
        · rw [hport] at h
          cases h
      dsimp only
      rw [if_pos hslash, if_pos hslash]

/-- The query of the URI before is still there. -/
theorem dependsOnlyOnUri_not : ¬ DependsOnlyOnUri parseDecimal16 (str "http://host") := by
  intro h
  have hquery := h ⟨[], [], 0, [], []⟩ ⟨[], [], 0, [], str "old"⟩ (by decide)
  exact absurd hquery (by decide)

end Pion.Proof
