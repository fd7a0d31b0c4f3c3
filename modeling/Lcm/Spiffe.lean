import Lcm.Net.Text
import Lcm.System

/-!
# SPIFFE ids as bytes

`ParseSPIFFEID` on Go strings, which are bytes: decoding the path of a URL can give any of them.

* `parseSPIFFEID_eq_some_iff`: which texts are accepted, and for which identity.
* `identity_preserved_iff`: the identity that is read back from what is printed, from the URI of
  a minted certificate and at every renewal is the one that was parsed, just when no escape of
  the text stands for a percent sign, a question mark or a number sign.
* `identity_changed`: `spiffe://td/a%2561` becomes another identity.
* `parseSPIFFEID_text`: `Csr.parseSPIFFEID` is this function on texts.
* `readAs_iff`: what this means for the text that `mint` stores and the URI it signs.
-/

namespace Lcm.Spiffe

open Net List

/-- A parsed `spiffe://<trust-domain>/<path>` identity. -/
structure SPIFFEID where
  trustDomain : Bytes
  path : Bytes
  raw : Bytes
deriving DecidableEq

/-- `String`: the canonical form. -/
def SPIFFEID.string (id : SPIFFEID) : Bytes :=
  ascii "spiffe://" ++ id.trustDomain ++ ascii "/" ++ id.path

def hasControl (s : Bytes) : Bool := s.any isControl

/-- Lowercase letters, digits, dots and hyphens. -/
def trustDomainByte (c : UInt8) : Bool :=
  (byte 'a' ≤ c && c ≤ byte 'z') || isDigit c || c == byte '.' || c == byte '-'

def validTrustDomain (host : Bytes) : Bool := host.all trustDomainByte

/-- `strings.TrimPrefix(path, "/")`. -/
def trimSlash (path : Bytes) : Bytes :=
  match path with
  | c :: s => if c = byte '/' then s else path
  | [] => []

/-- The part of `ParseSPIFFEID` that looks at the parsed URL: its trust domain and path. -/
def identity (u : URL) : Option (Bytes × Bytes) :=
  let host := u.hostname
  let path := trimSlash u.path
  if u.scheme ≠ ascii "spiffe" ∨ u.opaquePart ≠ [] then none
  else if u.user ≠ none ∨ u.rawQuery ≠ [] ∨ u.forceQuery ∨ u.fragment ≠ [] ∨
      u.rawFragment ≠ [] then none
  else if u.port ≠ [] then none
  else if host = [] ∨ host.length > 253 ∨ !validTrustDomain host then none
  else if path = [] ∨ hasControl path then none
  else some (host, path)

section

variable (parseIPv6 : Bytes → Bool)

/-- `ParseSPIFFEID`; an error is `ErrSPIFFEID`. -/
def parseSPIFFEID (s : Bytes) : Option SPIFFEID :=
  if s.length = 0 ∨ s.length > Csr.maxSPIFFEIDBytes ∨ hasControl s then none
  else do
    let u ← parse parseIPv6 s
    let (host, path) ← identity u
    some ⟨host, path, s⟩

end

/-! ## Which texts are accepted -/

/-- The trust domain and path of an identity, as `ParseSPIFFEID` wants them. -/
structure Valid (trustDomain path : Bytes) : Prop where
  trustDomain_ne : trustDomain ≠ []
  trustDomain_length : trustDomain.length ≤ 253
  trustDomain_valid : validTrustDomain trustDomain = true
  path_ne : path ≠ []
  path_control : hasControl path = false

/-- The text spells the identity: `spiffe://`, the trust domain with an empty port or none, and
the path with escapes. -/
structure Spells (s trustDomain path : Bytes) : Prop where
  spelled : ∃ name colon raw hash, Spelled s name (trustDomain ++ colon) (byte '/' :: raw) hash ∧
    name.map toLower = ascii "spiffe" ∧ (colon = [] ∨ colon = [byte ':']) ∧
    unescape .path raw = some path
  valid : Valid trustDomain path
  control : hasControl s = false

variable {colon raw : Bytes} {u : URL} {P : Platform} {parseIPv6 : Bytes → Bool}

section Accepted

variable {parseIPv6 : Bytes → Bool} {s td path : Bytes} {c : UInt8}

theorem not_mem_trustDomain (h : validTrustDomain td = true) (hc : trustDomainByte c = false) :
    c ∉ td := fun hmem => by
  rw [all_eq_true.1 h c hmem] at hc
  cases hc

set_option maxRecDepth 100000 in
theorem plain_trustDomainByte : ∀ c, trustDomainByte c = true →
    literal .host c = true ∧ shouldEscape c .host = false ∧ isControl c = false ∧
      ¬ (0x80 ≤ c ∨ c = byte '%') :=
  forall_byte (by decide)

set_option maxRecDepth 100000 in
theorem isAlpha_name {name : Bytes} (h : name.map toLower = ascii "spiffe") :
    ∀ c ∈ name, isAlpha c = true := by
  have hall : ∀ c, toLower c ∈ ascii "spiffe" → isAlpha c = true :=
    forall_byte (by decide)
  intro c hc
  exact hall c (h ▸ mem_map_of_mem hc)

section Host

variable (h : validTrustDomain td = true) (hcolon : colon = [] ∨ colon = [byte ':'])

include h hcolon

theorem colonPort_trustDomain : colonPort (ascii "spiffe") (td ++ colon) = colon := by
  have hnot : byte ':' ∉ td := not_mem_trustDomain h (by decide)
  unfold colonPort
  rw [if_neg (by decide)]
  obtain rfl | rfl := hcolon
  · rw [append_nil, show cutLast (byte ':') td = none from if_neg hnot]
  · rw [cutLast_after (by simp)]

theorem parseHost_trustDomain :
    parseHost parseIPv6 (ascii "spiffe") (td ++ colon) = some (td ++ colon) := by
  have hbracket : byte '[' ∉ td ++ colon := by
    rw [mem_append, not_or]
    refine ⟨not_mem_trustDomain h (by decide), ?_⟩
    obtain rfl | rfl := hcolon <;> decide
  have hport : validOptionalPort colon = true := by
    obtain rfl | rfl := hcolon <;> decide
  rw [parseHost_of_not_mem hbracket, colonPort_trustDomain h hcolon, hport]
  refine unescape_of_literal fun c hc => ?_
  obtain hc | hc := mem_append.1 hc
  · exact (plain_trustDomainByte c (all_eq_true.1 h c hc)).1
  obtain rfl | rfl := hcolon
  · cases hc
  · rw [mem_singleton.1 hc]
    decide

theorem splitHostPort_trustDomain : URL.splitHostPort (td ++ colon) = (td, []) := by
  have hnot : byte ':' ∉ td := not_mem_trustDomain h (by decide)
  have hhead : td.head? ≠ some (byte '[') := fun heq =>
    not_mem_trustDomain h (by decide) (mem_of_head? heq)
  unfold URL.splitHostPort
  obtain rfl | rfl := hcolon
  · rw [append_nil, show cutLast (byte ':') td = none from if_neg hnot]
    simp [hhead]
  · rw [cutLast_after (by simp)]
    simp [hhead]

end Host

/-- What the URL of an identity looks like. -/
structure Identifies (u : URL) (td path : Bytes) : Prop where
  scheme : u.scheme = ascii "spiffe"
  opaquePart : u.opaquePart = []
  user : u.user = none
  rawQuery : u.rawQuery = []
  forceQuery : u.forceQuery = false
  fragment : u.fragment = []
  rawFragment : u.rawFragment = []
  host : URL.splitHostPort u.host = (td, [])
  trimmed : trimSlash u.path = path
  valid : Valid td path

theorem identity_eq_some_iff : identity u = some (td, path) ↔ Identifies u td path := by
  constructor
  · intro h
    simp only [identity] at h
    split_ifs at h with hscheme hparts hport hhost hpath
    simp only [not_or, ne_eq, not_not, Bool.not_eq_true] at hscheme hparts hport
    simp only [not_or, Bool.not_eq_true, Nat.not_lt, gt_iff_lt, Bool.not_eq_false'] at hhost hpath
    obtain ⟨rfl, rfl⟩ := Prod.mk.inj (Option.some.inj h)
    exact ⟨hscheme.1, hscheme.2, hparts.1, hparts.2.1, hparts.2.2.1, hparts.2.2.2.1,
      hparts.2.2.2.2, Prod.ext rfl hport, rfl, ⟨hhost.1, hhost.2.1, hhost.2.2, hpath.1, hpath.2⟩⟩
  intro h
  have hhost : u.hostname = td := congrArg Prod.fst h.host
  have hport : u.port = [] := congrArg Prod.snd h.host
  have hlength : ¬ 253 < td.length := Nat.not_lt.2 h.valid.trustDomain_length
  simp [identity, h.scheme, h.opaquePart, h.user, h.rawQuery, h.forceQuery, h.fragment,
    h.rawFragment, hhost, hport, h.trimmed, h.valid.trustDomain_ne, hlength,
    h.valid.trustDomain_valid, h.valid.path_ne, h.valid.path_control]

theorem parseSPIFFEID_eq_some {id : SPIFFEID} :
    parseSPIFFEID parseIPv6 s = some id ↔
      id.raw = s ∧ s ≠ [] ∧ s.length ≤ Csr.maxSPIFFEIDBytes ∧ hasControl s = false ∧
        ∃ u, parse parseIPv6 s = some u ∧ Identifies u id.trustDomain id.path := by
  unfold parseSPIFFEID
  constructor
  · intro h
    split at h
    · cases h
    rename_i hs
    simp only [not_or, Bool.not_eq_true, gt_iff_lt, Nat.not_lt] at hs
    obtain ⟨u, hu, h⟩ := Option.bind_eq_some_iff.1 h
    obtain ⟨⟨host, path⟩, hid, h⟩ := Option.bind_eq_some_iff.1 h
    cases h
    exact ⟨rfl, fun heq => hs.1 (by rw [heq]; rfl), hs.2.1, hs.2.2, u, hu,
      identity_eq_some_iff.1 hid⟩
  · rintro ⟨rfl, hne, hlength, hcontrol, u, hu, hid⟩
    have hzero : id.raw.length ≠ 0 := fun h => hne (List.length_eq_zero_iff.1 h)
    rw [if_neg (by simp [hzero, hcontrol, Nat.not_lt.2 hlength]), hu]
    simp only [Option.bind_eq_bind, Option.bind_some, identity_eq_some_iff.2 hid]

theorem trimSlash_cons (path : Bytes) : trimSlash (byte '/' :: path) = path := by
  simp [trimSlash]

theorem identifies_of_spells (parseIPv6 : Bytes → Bool) (h : Spells s td path) :
    ∃ u, parse parseIPv6 s = some u ∧ Identifies u td path := by
  obtain ⟨name, colon, raw, hash, hspelled, hname, hcolon, hraw⟩ := h.spelled
  have hne : name ≠ [] := by
    rintro rfl
    exact absurd hname (by decide)
  have hpath : unescape .path (byte '/' :: raw) = some (byte '/' :: path) := by
    rw [unescape_cons (by decide), hraw]
    rfl
  rw [parse_of_spelled hspelled hne (isAlpha_name hname) h.control, hname,
    parseHost_trustDomain h.valid.trustDomain_valid hcolon]
  simp only [Option.bind_some, URL.setPath, hpath, Option.map_some]
  exact ⟨_, rfl, rfl, rfl, rfl, rfl, rfl, rfl, rfl,
    splitHostPort_trustDomain h.valid.trustDomain_valid hcolon, trimSlash_cons path, h.valid⟩

theorem authority_of_host {authority host : Bytes} (hvalid : validTrustDomain td = true)
    (h : parseHost parseIPv6 (ascii "spiffe") authority = some host)
    (hhost : URL.splitHostPort host = (td, [])) :
    ∃ colon, authority = td ++ colon ∧ (colon = [] ∨ colon = [byte ':']) := by
  have hcolon : byte ':' ∉ td := not_mem_trustDomain hvalid (by decide)
  by_cases hbracket : byte '[' ∈ authority
  · have hmem := colon_of_bracket hbracket h
    rw [hhost] at hmem
    exact absurd hmem hcolon
  rw [parseHost_of_not_mem hbracket] at h
  split at h
  · cases h
  · -- no bracket comes from an escape, and no escape is left in a trust domain
    have hnot : byte '[' ∉ host := fun hmem =>
      (mem_unescape_host h hmem).elim hbracket (by decide)
    have hcases := eq_of_splitHostPort hnot hcolon hhost
    have hplain : ∀ b ∈ host, ¬ (0x80 ≤ b ∨ b = byte '%') := by
      have htd : ∀ b, trustDomainByte b = true → ¬ (0x80 ≤ b ∨ b = byte '%') :=
        fun b hb => (plain_trustDomainByte b hb).2.2.2
      intro b hb
      obtain rfl | rfl := hcases
      · exact htd b (all_eq_true.1 hvalid b hb)
      obtain hb | hb := mem_append.1 hb
      · exact htd b (all_eq_true.1 hvalid b hb)
      · rw [mem_singleton.1 hb]
        decide
    have hpercent : byte '%' ∉ authority := fun hmem => by
      obtain ⟨b, hb, hout⟩ := exists_mem_of_percent h hmem
      exact hplain b hb hout
    rw [← eq_of_unescape h hpercent]
    obtain hcase | hcase := hcases
    · exact ⟨[], by rw [hcase, append_nil], .inl rfl⟩
    · exact ⟨[byte ':'], hcase, .inr rfl⟩

theorem spells_of_identifies (hu : parse parseIPv6 s = some u) (hid : Identifies u td path)
    (hcontrol : hasControl s = false) : Spells s td path := by
  have hplain : u.Plain := by
    refine ⟨?_, hid.opaquePart, hid.user, ?_, hid.rawQuery, hid.forceQuery, hid.fragment⟩
    · rw [hid.scheme]
      decide
    intro hnil
    have hhost := hid.host
    rw [hnil] at hhost
    exact hid.valid.trustDomain_ne (congrArg Prod.fst hhost).symm
  obtain ⟨name, authority, raw, hash, hspelled, hname, hhost, hraw⟩ := spelled_of_parse hu hplain
  rw [hid.scheme] at hname hhost
  obtain ⟨colon, rfl, hcolon⟩ := authority_of_host hid.valid.trustDomain_valid hhost hid.host
  obtain rfl | ⟨rest, rfl⟩ := hspelled.rooted
  · -- without a path there is nothing to trim
    have hnil : u.path = [] := (Option.some.inj hraw).symm
    have htrim := hid.trimmed
    rw [hnil] at htrim
    exact absurd htrim.symm hid.valid.path_ne
  rw [unescape_cons (by decide)] at hraw
  obtain ⟨path', hpath', hu'⟩ := Option.map_eq_some_iff.1 hraw
  have htrim := hid.trimmed
  rw [← hu', trimSlash_cons] at htrim
  exact ⟨⟨name, colon, rest, hash, hspelled, hname, hcolon, htrim ▸ hpath'⟩, hid.valid, hcontrol⟩

theorem parseSPIFFEID_eq_some_iff {id : SPIFFEID} :
    parseSPIFFEID parseIPv6 s = some id ↔
      id.raw = s ∧ s.length ≤ Csr.maxSPIFFEIDBytes ∧ Spells s id.trustDomain id.path := by
  rw [parseSPIFFEID_eq_some]
  constructor
  · rintro ⟨hraw, -, hlength, hcontrol, u, hu, hid⟩
    exact ⟨hraw, hlength, spells_of_identifies hu hid hcontrol⟩
  rintro ⟨hraw, hlength, hspells⟩
  refine ⟨hraw, ?_, hlength, hspells.control, identifies_of_spells parseIPv6 hspells⟩
  obtain ⟨name, colon, raw, hash, hspelled, -⟩ := hspells.spelled
  rw [hspelled.eq]
  simp

end Accepted

/-! ## Reading an identity back -/

section

variable (parseIPv6 : Bytes → Bool)

/-- The URI of a certificate minted for the identity: `url.Parse(sid.String())`, as the
certificate has it. -/
def SPIFFEID.uri (id : SPIFFEID) : Option Bytes := (parse parseIPv6 id.string).map URL.string

/-- The identity a verifier reads from the URI of a certificate. -/
def verify (uri : Bytes) : Option (Bytes × Bytes) := (parse parseIPv6 uri).bind identity

/-- The identity the `n`th renewal mints: it parses what the renewal before has stored. -/
def renewed : Nat → SPIFFEID → Option SPIFFEID
  | 0, id => some id
  | n + 1, id => (renewed n id).bind fun last => parseSPIFFEID parseIPv6 last.string

/-- The identity is read back from what is stored for it, by a verifier of its certificate, and at
every renewal. -/
structure Preserved (id : SPIFFEID) : Prop where
  parsed : ∃ id', parseSPIFFEID parseIPv6 id.string = some id' ∧
    id'.trustDomain = id.trustDomain ∧ id'.path = id.path
  verified : ∃ uri, id.uri parseIPv6 = some uri ∧
    verify parseIPv6 uri = some (id.trustDomain, id.path)
  renewed : ∀ n, ∃ id', renewed parseIPv6 n id = some id' ∧
    id'.trustDomain = id.trustDomain ∧ id'.path = id.path

end

/-- The signs that have a meaning in a printed path: an escape, a query, a fragment. -/
def signs : Bytes := ascii "%?#"

section Preserved

variable {parseIPv6 : Bytes → Bool} {s td path : Bytes} {id : SPIFFEID}

theorem string_eq (id : SPIFFEID) :
    id.string = ascii "spiffe" ++ byte ':' :: byte '/' :: byte '/' ::
      (id.trustDomain ++ byte '/' :: id.path) :=
  (append_assoc _ _ _).trans rfl

theorem length_string_le (h : Spells s id.trustDomain id.path) : id.string.length ≤ s.length := by
  obtain ⟨name, colon, raw, hash, hspelled, hname, -, hraw⟩ := h.spelled
  have hlen : name.length = 6 := by
    rw [← length_map (f := toLower), hname]
    rfl
  have hpath := (length_unescape hraw).1
  have hprefix : (ascii "spiffe://").length = 9 := rfl
  have hslash : (ascii "/").length = 1 := rfl
  rw [hspelled.eq]
  simp only [SPIFFEID.string, length_append, length_cons, hlen, hprefix, hslash]
  omega

theorem spelled_string (hvalid : validTrustDomain td = true) (hquery : byte '?' ∉ raw)
    (hfragment : byte '#' ∉ raw) :
    Spelled (ascii "spiffe" ++ byte ':' :: byte '/' :: byte '/' :: (td ++ byte '/' :: raw))
      (ascii "spiffe") (td ++ []) (byte '/' :: raw) [] := by
  have hfree : ∀ b, b ∉ raw → trustDomainByte b = false → b ≠ byte '/' →
      b ∉ td ++ [] ++ byte '/' :: raw := by
    intro b hb htd hslash
    simp only [append_nil, mem_append, mem_cons, not_or]
    exact ⟨not_mem_trustDomain hvalid htd, hslash, hb⟩
  refine ⟨?_, ?_, ?_, .inr ⟨_, rfl⟩, hfree _ hquery (by decide) (by decide),
    hfree _ hfragment (by decide) (by decide), .inl rfl⟩
  · simp only [append_nil]
  · rw [append_nil]
    exact not_mem_trustDomain hvalid (by decide)
  · rw [append_nil]
    exact not_mem_trustDomain hvalid (by decide)

theorem control_string (hvalid : validTrustDomain td = true) (hraw : hasControl raw = false) :
    hasControl (ascii "spiffe" ++ byte ':' :: byte '/' :: byte '/' :: (td ++ byte '/' :: raw))
      = false := by
  have hall : ∀ c, trustDomainByte c = true → isControl c = false :=
    fun c hc => (plain_trustDomainByte c hc).2.2.1
  have htd : td.any isControl = false := by
    refine any_eq_false.2 fun c hc => ?_
    rw [hall c (all_eq_true.1 hvalid c hc)]
    exact Bool.false_ne_true
  unfold hasControl at hraw ⊢
  simp only [any_append, any_cons, htd, hraw]
  decide

theorem spells_of_raw (hvalid : Valid td path) (hraw : unescape .path raw = some path)
    (hquery : byte '?' ∉ raw) (hfragment : byte '#' ∉ raw) (hclean : hasControl raw = false) :
    Spells (ascii "spiffe" ++ byte ':' :: byte '/' :: byte '/' :: (td ++ byte '/' :: raw))
      td path :=
  ⟨⟨ascii "spiffe", [], raw, [], spelled_string hvalid.trustDomain_valid hquery hfragment, rfl,
    .inl rfl, hraw⟩, hvalid, control_string hvalid.trustDomain_valid hclean⟩

theorem rest_of_spelled_string {name host hash : Bytes}
    (hspelled : Spelled id.string name host (byte '/' :: raw) hash)
    (hname : name.map toLower = ascii "spiffe") :
    id.trustDomain ++ byte '/' :: id.path = host ++ (byte '/' :: raw ++ hash) := by
  have hlen : (ascii "spiffe").length = name.length := by
    rw [← hname, length_map]
  have heq : ascii "spiffe" ++ byte ':' :: byte '/' :: byte '/' ::
      (id.trustDomain ++ byte '/' :: id.path) =
      name ++ byte ':' :: byte '/' :: byte '/' :: (host ++ (byte '/' :: raw ++ hash)) := by
    rw [← string_eq, hspelled.eq]
    simp only [append_assoc, cons_append]
  obtain ⟨-, heq⟩ := append_inj heq hlen
  exact (List.cons.inj (List.cons.inj (List.cons.inj heq).2).2).2

theorem spells_string_iff (hvalid : Valid id.trustDomain id.path) :
    Spells id.string id.trustDomain id.path ↔ ∀ b ∈ signs, b ∉ id.path := by
  constructor
  · intro h
    obtain ⟨name, colon, raw, hash, hspelled, hname, hcolon, hraw⟩ := h.spelled
    have heq := rest_of_spelled_string hspelled hname
    rw [append_assoc] at heq
    have heq := append_cancel_left heq
    have hrest : id.path = raw ++ hash := by
      obtain rfl | rfl := hcolon
      · exact (List.cons.inj heq).2
      · exact absurd (List.cons.inj heq).1 (by decide)
    -- a number sign at the end would be lost
    have hhash : hash = [] := by
      have hle := (length_unescape hraw).1
      rw [hrest, length_append] at hle
      exact List.length_eq_zero_iff.1 (by omega)
    obtain rfl : id.path = raw := by rw [hrest, hhash, append_nil]
    have hquery := hspelled.noQuery
    have hfragment := hspelled.noFragment
    simp only [mem_append, mem_cons, not_or] at hquery hfragment
    have hsigns : signs = [byte '%', byte '?', byte '#'] := rfl
    intro b hb
    simp only [hsigns, mem_cons, not_mem_nil, or_false] at hb
    obtain rfl | rfl | rfl := hb
    · exact unescape_eq_self_iff.1 hraw
    · exact hquery.2.2
    · exact hfragment.2.2
  · intro hplain
    rw [string_eq]
    exact spells_of_raw hvalid (unescape_eq_self_iff.2 (hplain _ (by decide)))
      (hplain _ (by decide)) (hplain _ (by decide)) hvalid.path_control

theorem trustDomain_of_spells_string (hvalid : validTrustDomain id.trustDomain = true)
    (h : Spells id.string td path) : td = id.trustDomain := by
  obtain ⟨name, colon, raw, hash, hspelled, hname, hcolon, -⟩ := h.spelled
  have heq := rest_of_spelled_string hspelled hname
  -- a trust domain ends before the first byte that is not one of its own
  have hcut : ∀ d : Bytes, validTrustDomain d = true → ∀ c rest, trustDomainByte c = false →
      (d ++ c :: rest).takeWhile trustDomainByte = d := by
    intro d hd c rest hc
    rw [takeWhile_append_of_pos (all_eq_true.1 hd), takeWhile_cons_of_neg (by simp [hc]),
      append_nil]
  have hleft := hcut _ hvalid (byte '/') id.path (by decide)
  rw [heq] at hleft
  obtain rfl | rfl := hcolon
  · rw [append_nil, cons_append, hcut td h.valid.trustDomain_valid _ _ (by decide)] at hleft
    exact hleft
  rw [append_assoc, singleton_append,
    hcut td h.valid.trustDomain_valid _ _ (by decide)] at hleft
  exact hleft

theorem signs_iff_escapes (h : Spells s td path) :
    (∀ b ∈ signs, b ∉ path) ↔ ∀ b ∈ escapes s, b ∉ signs := by
  obtain ⟨name, colon, raw, hash, hspelled, hname, hcolon, hraw⟩ := h.spelled
  have hescapes : escapes s = escapes raw := by
    have hfront : byte '%' ∉
        name ++ byte ':' :: byte '/' :: byte '/' :: (td ++ colon ++ [byte '/']) := by
      have hcolon' : byte '%' ∉ colon := by
        obtain rfl | rfl := hcolon <;> decide
      simp only [mem_append, mem_cons, not_mem_nil, or_false, not_or]
      exact ⟨fun hmem => absurd (isAlpha_name hname _ hmem) (by decide), by decide, by decide,
        by decide, ⟨not_mem_trustDomain h.valid.trustDomain_valid (by decide), hcolon'⟩, by decide⟩
    have hback : escapes hash = [] := by
      obtain rfl | rfl := hspelled.hash <;> rfl
    have heq : s = name ++ byte ':' :: byte '/' :: byte '/' :: (td ++ colon ++ [byte '/']) ++
        (raw ++ hash) := by
      rw [hspelled.eq]
      simp
    rw [heq, escapes_append_of_not_mem hfront, escapes_append hraw, hback, append_nil]
  have hquery := hspelled.noQuery
  have hfragment := hspelled.noFragment
  simp only [mem_append, mem_cons, not_or] at hquery hfragment
  have hiff : ∀ b ∈ signs, b ∈ path ↔ b ∈ escapes raw := by
    have hsigns : signs = [byte '%', byte '?', byte '#'] := rfl
    intro b hb
    simp only [hsigns, mem_cons, not_mem_nil, or_false] at hb
    obtain rfl | rfl | rfl := hb
    · exact percent_mem_unescape_iff hraw
    · rw [mem_unescape_iff (by decide) (by decide) hraw, or_iff_right hquery.2.2]
    · rw [mem_unescape_iff (by decide) (by decide) hraw, or_iff_right hfragment.2.2]
  rw [hescapes]
  constructor
  · intro h b hb hsign
    exact h b hsign ((hiff b hsign).2 hb)
  · intro h b hsign hb
    exact h b ((hiff b hsign).1 hb) hsign

theorem parse_string (parseIPv6 : Bytes → Bool) (hvalid : Valid id.trustDomain id.path)
    (hplain : ∀ b ∈ signs, b ∉ id.path) :
    ∃ u, parse parseIPv6 id.string = some u ∧ u.Plain ∧ u.scheme = ascii "spiffe" ∧
      u.host = id.trustDomain ∧ u.path = byte '/' :: id.path ∧
      (u.rawPath = [] ∨ u.rawPath = byte '/' :: id.path) := by
  have hpath : unescape .path (byte '/' :: id.path) = some (byte '/' :: id.path) := by
    rw [unescape_cons (by decide), unescape_eq_self_iff.2 (hplain _ (by decide))]
    rfl
  have hspelled := spelled_string hvalid.trustDomain_valid (hplain _ (by decide))
    (hplain _ (by decide))
  have hclean := control_string hvalid.trustDomain_valid hvalid.path_control
  have hscheme : ascii "spiffe" ≠ [] := by decide
  rw [string_eq, parse_of_spelled hspelled hscheme (isAlpha_name rfl) hclean,
    show (ascii "spiffe").map toLower = ascii "spiffe" from rfl,
    parseHost_trustDomain hvalid.trustDomain_valid (.inl rfl), append_nil]
  simp only [Option.bind_some, URL.setPath, hpath, Option.map_some]
  exact ⟨_, rfl, ⟨hscheme, rfl, rfl, hvalid.trustDomain_ne, rfl, rfl, rfl⟩, rfl, rfl, rfl,
    ite_eq_or_eq _ _ _⟩

theorem escapedPath_rooted (hpath : u.path = byte '/' :: path)
    (hraw : u.rawPath = [] ∨ u.rawPath = byte '/' :: path) (hplain : ∀ b ∈ signs, b ∉ path)
    (hcontrol : hasControl path = false) :
    ∃ raw, u.escapedPath = byte '/' :: raw ∧ unescape .path raw = some path ∧
      byte '?' ∉ raw ∧ byte '#' ∉ raw ∧ hasControl raw = false ∧
      (raw = path ∨ ∀ c ∈ raw, c < 0x80) := by
  unfold URL.escapedPath
  split
  · next hcond =>
    rw [hraw.resolve_left hcond.1]
    exact ⟨path, rfl, unescape_eq_self_iff.2 (hplain _ (by decide)), hplain _ (by decide),
      hplain _ (by decide), hcontrol, .inl rfl⟩
  rw [if_neg (by rw [hpath]; exact fun heq => absurd (List.cons.inj heq).1 (by decide)), hpath]
  refine ⟨escape .path path, rfl, unescape_escape rfl (fun _ _ => rfl) (by decide) path,
    fun hmem => (mem_escape_path hmem).2.1 rfl, fun hmem => (mem_escape_path hmem).2.2.1 rfl, ?_,
    .inr fun c hc => (mem_escape_path hc).2.2.2⟩
  refine any_eq_false.2 fun c hc => ?_
  rw [(mem_escape_path hc).1]
  exact Bool.false_ne_true

/-- The URI of a certificate, which has the path as it is or escaped, is read as the identity. -/
theorem verify_uri (parseIPv6 : Bytes → Bool) (hvalid : Valid id.trustDomain id.path)
    (hplain : ∀ b ∈ signs, b ∉ id.path) :
    ∃ u raw, parse parseIPv6 id.string = some u ∧
      verify parseIPv6 u.string = some (id.trustDomain, id.path) ∧
      u.string = ascii "spiffe" ++ byte ':' :: byte '/' :: byte '/' ::
        (id.trustDomain ++ byte '/' :: raw) ∧ (raw = id.path ∨ ∀ c ∈ raw, c < 0x80) := by
  obtain ⟨u, hparse, hu, hscheme, hhost, hpath, hrawPath⟩ :=
    parse_string parseIPv6 hvalid hplain
  obtain ⟨raw, hescaped, hraw, hquery, hfragment, hclean, hform⟩ :=
    escapedPath_rooted hpath hrawPath hplain hvalid.path_control
  have htd : ∀ c ∈ id.trustDomain, shouldEscape c .host = false := by
    exact fun c hc =>
      (plain_trustDomainByte c (all_eq_true.1 hvalid.trustDomain_valid c hc)).2.1
  have huri := URL.string_of_plain hu hescaped
  rw [hscheme, hhost, escape_of_not htd] at huri
  obtain ⟨v, hv, hid⟩ := identifies_of_spells parseIPv6
    (spells_of_raw hvalid hraw hquery hfragment hclean)
  refine ⟨u, raw, hparse, ?_, huri, hform⟩
  unfold verify
  rw [huri, hv]
  exact identity_eq_some_iff.2 hid

/-- The identity that is read back is the one that was parsed, from what is stored for it, from the
URI of its certificate and at every renewal, just when no escape of the text stands for a percent
sign, a question mark or a number sign. -/
theorem identity_preserved_iff (parseIPv6 : Bytes → Bool) (s : Bytes) (id : SPIFFEID)
    (h : parseSPIFFEID parseIPv6 s = some id) :
    Preserved parseIPv6 id ↔ ∀ b ∈ escapes s, b ∉ signs := by
  obtain ⟨-, hlength, hspells⟩ := parseSPIFFEID_eq_some_iff.1 h
  have hbound : id.string.length ≤ Csr.maxSPIFFEIDBytes :=
    Nat.le_trans (length_string_le hspells) hlength
  rw [← signs_iff_escapes hspells, ← spells_string_iff hspells.valid]
  constructor
  · intro hpres
    obtain ⟨id', hparse, htd, hpath⟩ := hpres.parsed
    obtain ⟨-, -, hspells'⟩ := parseSPIFFEID_eq_some_iff.1 hparse
    rwa [htd, hpath] at hspells'
  intro hstring
  have hparse : ∀ last : SPIFFEID, last.trustDomain = id.trustDomain → last.path = id.path →
      parseSPIFFEID parseIPv6 last.string = some ⟨id.trustDomain, id.path, id.string⟩ := by
    intro last htd hpath
    have heq : last.string = id.string := by
      unfold SPIFFEID.string
      rw [htd, hpath]
    rw [heq]
    exact parseSPIFFEID_eq_some_iff.2 ⟨rfl, hbound, hstring⟩
  obtain ⟨u, -, hu, hverify, -⟩ :=
    verify_uri parseIPv6 hspells.valid ((spells_string_iff hspells.valid).1 hstring)
  have huri : id.uri parseIPv6 = some u.string := congrArg (Option.map URL.string) hu
  refine ⟨⟨_, hparse id rfl rfl, rfl, rfl⟩, ⟨_, huri, hverify⟩, fun n => ?_⟩
  -- each renewal parses what the one before has printed
  induction n with
  | zero => exact ⟨id, rfl, rfl, rfl⟩
  | succ n ih =>
    obtain ⟨last, hlast, htd, hpath⟩ := ih
    refine ⟨⟨id.trustDomain, id.path, id.string⟩, ?_, rfl, rfl⟩
    rw [renewed, hlast]
    exact hparse last htd hpath

/-- An escaped space does no harm. -/
theorem identity_preserved_space :
    Preserved (fun _ => false) ⟨ascii "td", ascii "a b", ascii "spiffe://td/a%20b"⟩ :=
  (identity_preserved_iff (fun _ => false) (ascii "spiffe://td/a%20b") _ (by decide +kernel)).2
    (by decide +kernel)

/-- `spiffe://td/a%2561` is parsed to the path `a%61`, and what is printed for it to `aa`. -/
theorem identity_changed :
    ¬ ∀ (parseIPv6 : Bytes → Bool) (s : Bytes) (id : SPIFFEID),
      parseSPIFFEID parseIPv6 s = some id → Preserved parseIPv6 id := by
  intro h
  have hpres := h (fun _ => false) (ascii "spiffe://td/a%2561")
    ⟨ascii "td", ascii "a%61", ascii "spiffe://td/a%2561"⟩ (by decide +kernel)
  obtain ⟨id', hparse, -, hpath⟩ := hpres.parsed
  have hother : parseSPIFFEID (fun _ => false) (ascii "spiffe://td/a%61") =
      some ⟨ascii "td", ascii "aa", ascii "spiffe://td/a%61"⟩ := by
    decide +kernel
  obtain rfl := Option.some.inj (hother.symm.trans hparse)
  exact absurd hpath (by decide +kernel)

end Preserved

/-! ## Texts -/

/-- The URL as a text, if its parts are UTF-8. -/
def asText (u : URL) : Option Url := do
  let scheme ← decode u.scheme
  let opaquePart ← decode u.opaquePart
  let hostname ← decode u.hostname
  let port ← decode u.port
  let path ← decode u.path
  let rawQuery ← decode u.rawQuery
  let fragment ← decode u.fragment
  let rawFragment ← decode u.rawFragment
  some ⟨scheme, opaquePart, u.user.isSome, hostname, port, path, rawQuery, u.forceQuery, fragment,
    rawFragment, (decode u.string).getD ""⟩

/-- The platform parses URLs as Go does. -/
def ParsesURLs (P : Platform) (parseIPv6 : Bytes → Bool) : Prop :=
  ∀ s, P.urlParse s = (parse parseIPv6 (encode s)).bind asText

def bytesOf (id : Csr.SPIFFEID) : SPIFFEID :=
  ⟨encode id.trustDomain, encode id.path, encode id.raw⟩

set_option maxRecDepth 100000 in
theorem class_high : ∀ c : UInt8, 0x80 ≤ c →
    isControl c = false ∧ trustDomainByte c = false ∧ (c == byte '/') = false :=
  forall_byte (by decide)

set_option maxRecDepth 100000 in
theorem sameClass_control : SameClass isControl Csr.isControl := by
  have hascii : ∀ n ≤ 127, isControl (UInt8.ofNat n) = (decide (n < 0x20) || n == 0x7f) := by
    decide
  refine ⟨fun c hc => hascii c.toNat hc, fun c hc => (class_high c hc).1, ?_⟩
  · intro c hc
    have hlt : ¬ c.toNat < 0x20 := by omega
    have hne : c.toNat ≠ 0x7f := by omega
    simp [Csr.isControl, hlt, hne]

set_option maxRecDepth 100000 in
theorem sameClass_trustDomain : SameClass trustDomainByte Csr.trustDomainChar := by
  have hascii : ∀ n ≤ 127, trustDomainByte (UInt8.ofNat n) = Csr.trustDomainChar (Char.ofNat n) := by
    decide
  refine ⟨fun c hc => ?_, fun c hc => (class_high c hc).2.1, ?_⟩
  · rw [hascii c.toNat hc, Char.ofNat_toNat]
  intro c hc
  have hle : ∀ d : Char, d.toNat ≤ 127 → ¬ c ≤ d := fun d hd hcd =>
    absurd (Nat.le_trans (UInt32.le_iff_toNat_le.1 (Char.le_def.1 hcd)) hd) (Nat.not_le.2 hc)
  have hne : ∀ d : Char, d.toNat ≤ 127 → c ≠ d := fun d hd heq => hle d hd (heq ▸ Char.le_refl _)
  simp [Csr.trustDomainChar, hle 'z' (by decide), hle '9' (by decide), hne '.' (by decide),
    hne '-' (by decide)]

set_option maxRecDepth 100000 in
theorem sameClass_slash : SameClass (· == byte '/') (· == '/') := by
  have hascii : ∀ n ≤ 127, (UInt8.ofNat n == byte '/') = (Char.ofNat n == '/') := by
    decide
  refine ⟨fun c hc => ?_, fun c hc => (class_high c hc).2.2, ?_⟩
  · have h := hascii c.toNat hc
    rwa [Char.ofNat_toNat] at h
  rintro c hc
  refine beq_eq_false_iff_ne.2 ?_
  rintro rfl
  exact absurd hc (by decide)

theorem trimSlash_encode (path : String) : trimSlash (encode path) = encode (Csr.trimSlash path) := by
  unfold Csr.trimSlash
  split
  · next cs hcs =>
    have hpath : path = String.ofList ('/' :: cs) := by rw [← hcs, String.ofList_toList]
    rw [hpath, encode_ofList_cons]
    exact trimSlash_cons _
  rename_i hno
  match hcs : path.toList with
  | [] =>
    have hpath : path = "" := by rw [← String.ofList_toList (s := path), hcs]
    rw [hpath]
    rfl
  | c :: cs =>
    have hpath : path = String.ofList (c :: cs) := by rw [← hcs, String.ofList_toList]
    have hc : c ≠ '/' := fun heq => hno cs (heq ▸ hcs)
    have hhead : ∀ x ∈ String.utf8EncodeChar c, ¬ (x == byte '/') = true := by
      rw [← any_eq_false, sameClass_slash.any_char]
      exact beq_eq_false_iff_ne.2 hc
    obtain ⟨x, xs, hxs⟩ := exists_cons_of_ne_nil (String.utf8EncodeChar_ne_nil (c := c))
    rw [hpath, encode_ofList_cons, hxs]
    have hx := hhead x (hxs ▸ mem_cons_self)
    rw [beq_iff_eq] at hx
    simp [trimSlash, hx]

theorem exists_text_of_trimSlash {b : Bytes} {path : String} (h : trimSlash b = encode path) :
    ∃ full, b = encode full ∧ Csr.trimSlash full = path := by
  suffices hfull : ∃ full, b = encode full by
    obtain ⟨full, rfl⟩ := hfull
    rw [trimSlash_encode] at h
    exact ⟨full, rfl, encode_inj h⟩
  match b, h with
  | [], _ => exact ⟨"", rfl⟩
  | c :: s, h =>
    by_cases hc : c = byte '/'
    · subst hc
      rw [trimSlash_cons] at h
      refine ⟨String.ofList ('/' :: path.toList), ?_⟩
      rw [encode_ofList_cons, String.ofList_toList, h]
      rfl
    · simp only [trimSlash, if_neg hc] at h
      exact ⟨path, h⟩

theorem asText_eq_some {v : Url} (h : asText u = some v) :
    u.scheme = encode v.scheme ∧ u.opaquePart = encode v.opaquePart ∧
      u.user.isSome = v.hasUser ∧ u.hostname = encode v.hostname ∧ u.port = encode v.port ∧
      u.path = encode v.path ∧ u.rawQuery = encode v.rawQuery ∧ u.forceQuery = v.forceQuery ∧
      u.fragment = encode v.fragment ∧ u.rawFragment = encode v.rawFragment ∧
      v.text = (decode u.string).getD "" := by
  unfold asText at h
  simp only [Option.bind_eq_bind, Option.bind_eq_some_iff, decode_eq_some_iff] at h
  obtain ⟨scheme, hscheme, opaquePart, hopaque, hostname, hhost, port, hport, path, hpath, query,
    hquery, fragment, hfragment, rawFragment, hraw, h⟩ := h
  cases h
  exact ⟨hscheme, hopaque, rfl, hhost, hport, hpath, hquery, rfl, hfragment, hraw, rfl⟩

theorem parseSPIFFEID_text (hP : ParsesURLs P parseIPv6) (s : String) (id : Csr.SPIFFEID) :
    Csr.parseSPIFFEID P s = some id ↔
      parseSPIFFEID parseIPv6 (encode s) = some (bytesOf id) := by
  have hspiffe : ascii "spiffe" = encode "spiffe" := by decide
  rw [parseSPIFFEID_eq_some, Csr.parseSPIFFEID_eq_some]
  constructor
  · rintro ⟨hne, hlength, hcontrol, v, hv, ⟨hscheme, hopaque⟩,
      ⟨huser, hquery, hforce, hfragment, hrawFragment⟩, hport, ⟨hhost, hhostLength, hhostValid⟩,
      ⟨hpath, hpathControl⟩, rfl⟩
    rw [hP s] at hv
    obtain ⟨u, hu, htext⟩ := Option.bind_eq_some_iff.1 hv
    obtain ⟨h1, h2, h3, h4, h5, h6, h7, h8, h9, h10, -⟩ := asText_eq_some htext
    have htrim : trimSlash u.path = encode (Csr.trimSlash v.path) := by rw [h6, trimSlash_encode]
    refine ⟨rfl, fun h => hne ?_, ?_, ?_, u, hu, ?_⟩
    · rw [← length_encode, h]
      rfl
    · rwa [length_encode]
    · exact (sameClass_control.any_encode s).trans hcontrol
    refine ⟨?_, ?_, ?_, ?_, h8.trans hforce, ?_, ?_, ?_, htrim, ?_⟩
    · rw [h1, hscheme, hspiffe]
    · rw [h2, hopaque, encode_empty]
    · rw [huser, Option.isSome_eq_false_iff, Option.isNone_iff_eq_none] at h3
      exact h3
    · rw [h7, hquery, encode_empty]
    · rw [h9, hfragment, encode_empty]
    · rw [h10, hrawFragment, encode_empty]
    · exact Prod.ext h4 (h5.trans (hport ▸ encode_empty))
    refine ⟨fun h => hhost (encode_eq_nil_iff.1 h), ?_, ?_, fun h => hpath (encode_eq_nil_iff.1 h),
      ?_⟩
    · exact (length_encode v.hostname).le.trans hhostLength
    · exact (sameClass_trustDomain.all_encode _).trans hhostValid
    · exact (sameClass_control.any_encode _).trans hpathControl
  · rintro ⟨hraw, hne, hlength, hcontrol, u, hu, hid⟩
    obtain ⟨path, hpath, htrim⟩ := exists_text_of_trimSlash hid.trimmed
    have hhost : u.hostname = encode id.trustDomain := congrArg Prod.fst hid.host
    have hport : u.port = [] := congrArg Prod.snd hid.host
    have htext : asText u = some ⟨"spiffe", "", false, id.trustDomain, "", path, "", false, "", "",
        (decode u.string).getD ""⟩ := by
      unfold asText
      rw [hid.scheme, hid.opaquePart, hhost, hport, hpath, hid.rawQuery, hid.forceQuery,
        hid.fragment, hid.rawFragment, hid.user, hspiffe, ← encode_empty]
      simp only [decode_encode]
      rfl
    have hv := (congrArg (Option.bind · asText) hu).trans htext
    rw [← hP s] at hv
    refine ⟨fun h => hne ?_, ?_, ?_, _, hv, ⟨rfl, rfl⟩, ⟨rfl, rfl, rfl, rfl, rfl⟩, rfl,
      ⟨fun h => hid.valid.trustDomain_ne (encode_eq_nil_iff.2 h), ?_, ?_⟩,
      ⟨fun h => hid.valid.path_ne (encode_eq_nil_iff.2 (htrim ▸ h)), ?_⟩, ?_⟩
    · rw [← length_encode] at h
      exact List.length_eq_zero_iff.1 h
    · rwa [length_encode] at hlength
    · exact (sameClass_control.any_encode s).symm.trans hcontrol
    · exact (length_encode id.trustDomain).ge.trans hid.valid.trustDomain_length
    · exact (sameClass_trustDomain.all_encode _).symm.trans hid.valid.trustDomain_valid
    · rw [htrim]
      exact (sameClass_control.any_encode _).symm.trans hid.valid.path_control
    · rw [htrim, ← encode_inj hraw]

theorem encode_string (id : Csr.SPIFFEID) : encode id.string = (bytesOf id).string := by
  have hprefix : encode "spiffe://" = ascii "spiffe://" := by decide
  have hslash : encode "/" = ascii "/" := by decide
  rw [Csr.SPIFFEID.string, encode_append, encode_append, encode_append, hprefix, hslash]
  rfl

theorem verify_urlParse (hP : ParsesURLs P parseIPv6) {id : Csr.SPIFFEID}
    (hvalid : Valid (encode id.trustDomain) (encode id.path))
    (hplain : ∀ b ∈ signs, b ∉ encode id.path) {v : Url} (hv : P.urlParse id.string = some v) :
    verify parseIPv6 (encode v.text) = some (encode id.trustDomain, encode id.path) := by
  obtain ⟨u, raw, hu, hverify, hstring, hraw⟩ :=
    verify_uri parseIPv6 (show Valid (bytesOf id).trustDomain _ from hvalid) hplain
  rw [hP, encode_string, hu, Option.bind_some] at hv
  -- the URI is a text, so none of it is lost
  have hfront : ∀ c ∈ ascii "spiffe" ++ byte ':' :: byte '/' :: byte '/' ::
      (encode id.trustDomain ++ [byte '/']), c < 0x80 := by
    have hlow : ∀ c : UInt8, trustDomainByte c = true → c < 0x80 := by
      intro c hc
      by_contra hge
      exact absurd hc (by rw [(class_high c (UInt8.not_lt.1 hge)).2.1]; decide)
    intro c hc
    simp only [mem_append, mem_cons, not_mem_nil, or_false] at hc
    rcases hc with hc | rfl | rfl | rfl | hc | rfl
    · have hscheme : (ascii "spiffe").all (fun c => decide (c < 0x80)) = true := by decide
      exact of_decide_eq_true (all_eq_true.1 hscheme c hc)
    · decide
    · decide
    · decide
    · exact hlow c (all_eq_true.1 hvalid.trustDomain_valid c hc)
    · decide
  obtain ⟨front, hfront⟩ := exists_text_of_ascii hfront
  obtain ⟨path, rfl⟩ : ∃ path, raw = encode path := by
    rcases hraw with rfl | hraw
    · exact ⟨id.path, rfl⟩
    · exact exists_text_of_ascii hraw
  have htext : u.string = encode (front ++ path) := by
    rw [hstring, encode_append, ← hfront]
    simp [bytesOf]
  obtain ⟨-, -, -, -, -, -, -, -, -, -, hv⟩ := asText_eq_some hv
  rw [hv, htext, decode_encode, Option.getD_some, ← htext]
  exact hverify

/-- The text is parsed to the identity, and the URI that is signed for it is read as the identity. -/
structure ReadAs (P : Platform) (parseIPv6 : Bytes → Bool) (id : Csr.SPIFFEID) (text : String) :
    Prop where
  parsed : ∃ id', Csr.parseSPIFFEID P text = some id' ∧ id'.trustDomain = id.trustDomain ∧
    id'.path = id.path
  verified : ∃ uri, P.urlParse text = some uri ∧
    verify parseIPv6 (encode uri.text) = some (encode id.trustDomain, encode id.path)

theorem readAs_iff (hP : ParsesURLs P parseIPv6) {s : String} {id : Csr.SPIFFEID}
    (h : Csr.parseSPIFFEID P s = some id) :
    ReadAs P parseIPv6 id id.string ↔ ∀ b ∈ escapes (encode s), b ∉ signs := by
  rw [parseSPIFFEID_text hP, parseSPIFFEID_eq_some_iff] at h
  obtain ⟨-, hlength, hspells⟩ := h
  rw [← signs_iff_escapes hspells, ← @spells_string_iff (bytesOf id) hspells.valid]
  constructor
  · intro hread
    obtain ⟨id', hparse, htd, hpath⟩ := hread.parsed
    rw [parseSPIFFEID_text hP, encode_string, parseSPIFFEID_eq_some_iff] at hparse
    have hspells' : Spells (bytesOf id).string (encode id'.trustDomain) (encode id'.path) :=
      hparse.2.2
    rwa [htd, hpath] at hspells'
  intro hstring
  have hparse : Csr.parseSPIFFEID P id.string = some ⟨id.trustDomain, id.path, id.string⟩ := by
    rw [parseSPIFFEID_text hP, parseSPIFFEID_eq_some_iff, encode_string]
    exact ⟨encode_string id, Nat.le_trans (length_string_le hspells) hlength, hstring⟩
  obtain ⟨-, -, -, v, hv, -⟩ := Csr.parseSPIFFEID_eq_some.1 hparse
  exact ⟨⟨_, hparse, rfl, rfl⟩, v, hv,
    verify_urlParse hP hspells.valid ((spells_string_iff hspells.valid).1 hstring) hv⟩

section Sample

open Lcm.Sample

/-- The sample platform with Go's URL parser. -/
def goPlatform : Platform :=
  { platform with urlParse := fun s => (parse (fun _ => false) (encode s)).bind asText }

theorem goPlatform_parses : ParsesURLs goPlatform fun _ => false := fun _ => rfl

end Sample

end Lcm.Spiffe
