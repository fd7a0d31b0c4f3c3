import Mathlib.Data.List.TakeWhile

/-!
# URLs

`net/url` of Go, on the bytes of Go strings: percent escapes, `Parse` and `String`. The parser
of IPv6 addresses is a parameter; nothing here depends on which ones it accepts.

* `unescape`, `escape`, and `unescape_escape`: escaping can be undone.
* `escapes`: the bytes that the escapes of a text stand for, and `mem_unescape_iff`: what a
  decoded text consists of.
* `parse`, `URL.string`.
-/

namespace Lcm.Net

open List

/-- A Go string. -/
abbrev Bytes := List UInt8

/-- The byte of an ASCII character. -/
def byte (c : Char) : UInt8 := c.toNat.toUInt8

/-- The bytes of an ASCII text. -/
def ascii (s : String) : Bytes := s.toList.map byte

/-- `strings.Cut`: what stands before and after the first `b`. -/
def cut (b : UInt8) (s : Bytes) : Bytes × Bytes :=
  (s.takeWhile (· != b), (s.dropWhile (· != b)).tail)

/-- What stands before and after the last `b`, if there is one. -/
def cutLast (b : UInt8) (s : Bytes) : Option (Bytes × Bytes) :=
  if b ∈ s then
    some (((s.reverse.dropWhile (· != b)).tail).reverse, (s.reverse.takeWhile (· != b)).reverse)
  else none

/-! ## Classes of bytes -/

def isDigit (c : UInt8) : Bool := byte '0' ≤ c && c ≤ byte '9'

def isAlpha (c : UInt8) : Bool :=
  (byte 'a' ≤ c && c ≤ byte 'z') || (byte 'A' ≤ c && c ≤ byte 'Z')

def isControl (c : UInt8) : Bool := c < 0x20 || c == 0x7f

/-- `strings.ToLower` for ASCII. -/
def toLower (c : UInt8) : UInt8 := if byte 'A' ≤ c && c ≤ byte 'Z' then c + 32 else c

def isHex (c : UInt8) : Bool :=
  isDigit c || (byte 'a' ≤ c && c ≤ byte 'f') || (byte 'A' ≤ c && c ≤ byte 'F')

def unhex (c : UInt8) : UInt8 :=
  if isDigit c then c - byte '0'
  else if byte 'a' ≤ c && c ≤ byte 'f' then c - byte 'a' + 10
  else c - byte 'A' + 10

/-- The byte that `%hl` stands for. -/
def unhexPair (h l : UInt8) : UInt8 := unhex h <<< 4 ||| unhex l

/-- A digit of `upperhex`. -/
def upperHex (n : UInt8) : UInt8 := if n < 10 then byte '0' + n else byte 'A' + (n - 10)

/-- The part of a URL a text stands in. -/
inductive Encoding where
  | path
  | host
  | zone
  | userPassword
  | fragment
deriving DecidableEq

namespace Encoding

def ofHost : Encoding → Bool
  | host | zone => true
  | _ => false

end Encoding

def shouldEscape (c : UInt8) (mode : Encoding) : Bool :=
  if isAlpha c || isDigit c then false
  else if mode.ofHost && ((ascii "!$&'()*+,;=:[]<>").contains c || c == 0x22) then false
  else if (ascii "-_.~").contains c then false
  else if (ascii "$&+,/:;=?@").contains c then
    match mode with
    | .path => c == byte '?'
    | .userPassword => (ascii "@/?:").contains c
    | .fragment => false
    | .host | .zone => true
  else if mode = .fragment ∧ (ascii "!()*").contains c then false
  else true

/-! ## Escapes -/

/-- The escape `%hl` may stand in a text of this mode. -/
def allowed (mode : Encoding) (h l : UInt8) : Bool :=
  match mode with
  | .host => 8 ≤ unhex h || unhexPair h l == byte '%'
  | .zone => unhexPair h l == byte '%' || unhexPair h l == byte ' ' ||
      !shouldEscape (unhexPair h l) .host
  | _ => true

def unescape (mode : Encoding) : Bytes → Option Bytes
  | [] => some []
  | c :: s =>
    if c = byte '%' then
      match s with
      | h :: l :: s =>
        if isHex h && isHex l && allowed mode h l then
          (unescape mode s).map (unhexPair h l :: ·)
        else none
      | _ => none
    else if mode.ofHost && c < 0x80 && shouldEscape c mode then none
    else (unescape mode s).map (c :: ·)

def escapeByte (mode : Encoding) (c : UInt8) : Bytes :=
  if shouldEscape c mode then [byte '%', upperHex (c >>> 4), upperHex (c &&& 15)] else [c]

def escape (mode : Encoding) (s : Bytes) : Bytes := s.flatMap (escapeByte mode)

/-- The bytes that the escapes of a text stand for. -/
def escapes : Bytes → Bytes
  | [] => []
  | c :: s =>
    if c = byte '%' then
      match s with
      | h :: l :: s => unhexPair h l :: escapes s
      | _ => []
    else escapes s

/-- `validEncoded`: a text that needs no further escaping. -/
def validEncoded (s : Bytes) (mode : Encoding) : Bool :=
  s.all fun c => (ascii "!$&'()*+,;=:@[]%").contains c || !shouldEscape c mode

/-! ## Parsing -/

/-- The username and password of a URL. -/
structure Userinfo where
  username : Bytes
  password : Option Bytes
deriving DecidableEq

structure URL where
  scheme : Bytes
  opaquePart : Bytes
  user : Option Userinfo
  host : Bytes
  path : Bytes
  rawPath : Bytes
  omitHost : Bool
  forceQuery : Bool
  rawQuery : Bytes
  fragment : Bytes
  rawFragment : Bytes
deriving DecidableEq

def URL.empty : URL := ⟨[], [], none, [], [], [], false, false, [], [], []⟩

def schemeByte (c : UInt8) : Bool := isAlpha c || isDigit c || (ascii "+-.").contains c

/-- `getScheme`: the scheme, or nothing, and the rest of the text. -/
def getScheme (rawURL : Bytes) : Option (Bytes × Bytes) :=
  match rawURL with
  | [] => some ([], [])
  | c :: _ =>
    if c = byte ':' then none
    else if !isAlpha c then some ([], rawURL)
    else match rawURL.dropWhile schemeByte with
      | d :: rest =>
        if d = byte ':' then some (rawURL.takeWhile schemeByte, rest) else some ([], rawURL)
      | [] => some ([], rawURL)

/-- `validOptionalPort`: nothing, or a colon and digits. -/
def validOptionalPort : Bytes → Bool
  | [] => true
  | c :: s => c == byte ':' && s.all isDigit

def validUserinfo (s : Bytes) : Bool :=
  s.all fun c => isAlpha c || isDigit c || (ascii "-._:~!$&'()*+,;=%@").contains c

/-- The text up to the first place where `p` stands, and the text from there on. -/
def cutBefore (p : Bytes) : Bytes → Bytes × Bytes
  | [] => ([], [])
  | c :: s =>
    if p.isPrefixOf (c :: s) then ([], c :: s)
    else (c :: (cutBefore p s).1, (cutBefore p s).2)

/-- The text inside the brackets of an IP literal, decoded. An escaped percent sign begins the
zone. -/
def unescapeLiteral (hostname : Bytes) : Option Bytes := do
  let hostPart ← unescape .host (cutBefore (ascii "%25") hostname).1
  let zonePart ← unescape .zone (cutBefore (ascii "%25") hostname).2
  some (hostPart ++ zonePart)

/-- What stands behind the host. Only the web's schemes forbid a colon in the host. -/
def colonPort (scheme host : Bytes) : Bytes :=
  if scheme = ascii "http" ∨ scheme = ascii "https" then host.dropWhile (· != byte ':')
  else match cutLast (byte ':') host with
    | some (_, port) => byte ':' :: port
    | none => []

/-- The path of a URL, and its spelling where the default one is another. -/
def URL.setPath (u : URL) (p : Bytes) : Option URL :=
  (unescape .path p).map fun path =>
    { u with path := path, rawPath := if p = escape .path path then [] else p }

def URL.setFragment (u : URL) (f : Bytes) : Option URL :=
  (unescape .fragment f).map fun frag =>
    { u with fragment := frag, rawFragment := if f = escape .fragment frag then [] else f }

/-- The text without its query, the query, and whether it is an empty one. -/
def splitQuery (rest : Bytes) : Bytes × Bytes × Bool :=
  if rest.getLast? = some (byte '?') ∧ rest.count (byte '?') = 1 then (rest.dropLast, [], true)
  else ((cut (byte '?') rest).1, (cut (byte '?') rest).2, false)

section Parse

variable (parseIPv6 : Bytes → Bool)

/-- `netip.ParseAddr` returns an IPv6 address. -/
def isIPv6 (s : Bytes) : Bool :=
  match s.find? fun c => (ascii ".:%").contains c with
  | some c => c == byte ':' && parseIPv6 s
  | none => false

/-- `parseHost`. Brackets stand around the whole host, and only around an IPv6 address. -/
def parseHost (scheme host : Bytes) : Option Bytes :=
  if byte '[' ∈ host then
    match cutLast (byte ']') host.tail with
    | none => none
    | some (hostname, port) =>
      if byte '[' ∈ host.tail ∨ !validOptionalPort port then none
      else do
        let port ← unescape .host port
        let hostname ← unescapeLiteral hostname
        if isIPv6 parseIPv6 hostname then some (byte '[' :: hostname ++ byte ']' :: port)
        else none
  else if !validOptionalPort (colonPort scheme host) then none
  else unescape .host host

def parseAuthority (scheme authority : Bytes) : Option (Option Userinfo × Bytes) :=
  match cutLast (byte '@') authority with
  | none => (parseHost parseIPv6 scheme authority).map fun host => (none, host)
  | some (userinfo, host) => do
    let host ← parseHost parseIPv6 scheme host
    if !validUserinfo userinfo then none
    if byte ':' ∉ userinfo then
      let username ← unescape .userPassword userinfo
      some (some ⟨username, none⟩, host)
    else
      let username ← unescape .userPassword (cut (byte ':') userinfo).1
      let password ← unescape .userPassword (cut (byte ':') userinfo).2
      some (some ⟨username, some password⟩, host)

/-- `parse`: a URL without its fragment. -/
def parseBase (rawURL : Bytes) : Option URL :=
  if rawURL.any isControl then none
  else if rawURL = ascii "*" then some { URL.empty with path := ascii "*" }
  else do
    let (scheme, rest) ← getScheme rawURL
    let scheme := scheme.map toLower
    let (rest, rawQuery, forceQuery) := splitQuery rest
    let u := { URL.empty with scheme := scheme, rawQuery := rawQuery, forceQuery := forceQuery }
    if !(ascii "/").isPrefixOf rest then
      -- a rootless path after a scheme is opaque
      if scheme ≠ [] then some { u with opaquePart := rest }
      else if byte ':' ∈ (cut (byte '/') rest).1 then none
      else u.setPath rest
    else if (scheme ≠ [] ∨ !(ascii "///").isPrefixOf rest) ∧ (ascii "//").isPrefixOf rest then
      let (user, host) ← parseAuthority parseIPv6 scheme ((rest.drop 2).takeWhile (· != byte '/'))
      URL.setPath { u with user := user, host := host } ((rest.drop 2).dropWhile (· != byte '/'))
    else URL.setPath { u with omitHost := scheme ≠ [] } rest

def parse (rawURL : Bytes) : Option URL := do
  let u ← parseBase parseIPv6 (cut (byte '#') rawURL).1
  if (cut (byte '#') rawURL).2 = [] then some u else u.setFragment (cut (byte '#') rawURL).2

end Parse

namespace URL

/-! ## Parts and text of a URL -/

def splitHostPort (hostPort : Bytes) : Bytes × Bytes :=
  let (host, port) := match cutLast (byte ':') hostPort with
    | some (host, port) => if port.all isDigit then (host, port) else (hostPort, [])
    | none => (hostPort, [])
  (if host.head? = some (byte '[') ∧ host.getLast? = some (byte ']') then
    host.tail.dropLast else host, port)

def hostname (u : URL) : Bytes := (splitHostPort u.host).1

def port (u : URL) : Bytes := (splitHostPort u.host).2

def escapedPath (u : URL) : Bytes :=
  if u.rawPath ≠ [] ∧ validEncoded u.rawPath .path ∧ unescape .path u.rawPath = some u.path then
    u.rawPath
  else if u.path = ascii "*" then ascii "*"
  else escape .path u.path

def escapedFragment (u : URL) : Bytes :=
  if u.rawFragment ≠ [] ∧ validEncoded u.rawFragment .fragment ∧
      unescape .fragment u.rawFragment = some u.fragment then
    u.rawFragment
  else escape .fragment u.fragment

/-- `Userinfo.String`. -/
def userText (user : Userinfo) : Bytes :=
  escape .userPassword user.username ++ match user.password with
    | some password => byte ':' :: escape .userPassword password
    | none => []

/-- The scheme and the authority of `String`. -/
def front (u : URL) : Bytes :=
  (if u.scheme = [] then [] else u.scheme ++ ascii ":") ++
  if (u.scheme = [] ∧ u.host = [] ∧ u.user = none) ∨
      (u.omitHost ∧ u.host = [] ∧ u.user = none) then []
  else
    (if u.host ≠ [] ∨ u.path ≠ [] ∨ u.user ≠ none then ascii "//" else []) ++
    (match u.user with
      | some user => userText user ++ ascii "@"
      | none => []) ++
    escape .host u.host

/-- The path of `String`, kept apart from the authority and from a scheme. -/
def back (u : URL) : Bytes :=
  let path := u.escapedPath
  if path ≠ [] ∧ path.head? ≠ some (byte '/') ∧ u.host ≠ [] then byte '/' :: path
  else if u.front = [] ∧ byte ':' ∈ (cut (byte '/') path).1 then ascii "./" ++ path
  else path

def string (u : URL) : Bytes :=
  (if u.opaquePart ≠ [] then
    (if u.scheme = [] then [] else u.scheme ++ ascii ":") ++ u.opaquePart
  else u.front ++ u.back) ++
  (if u.forceQuery ∨ u.rawQuery ≠ [] then byte '?' :: u.rawQuery else []) ++
  if u.fragment ≠ [] then byte '#' :: u.escapedFragment else []

end URL

/-! ## Decoding -/

theorem forall_byte {p : UInt8 → Prop} (h : ∀ n < 256, p (UInt8.ofNat n)) (c : UInt8) : p c := by
  have hc := h c.toNat c.toNat_lt
  rwa [UInt8.ofNat_toNat] at hc

set_option maxRecDepth 100000 in
theorem unhexPair_upperHex (c : UInt8) :
    unhexPair (upperHex (c >>> 4)) (upperHex (c &&& 15)) = c := by
  revert c
  exact forall_byte (by decide)

set_option maxRecDepth 100000 in
theorem isHex_upperHex (c : UInt8) :
    isHex (upperHex (c >>> 4)) = true ∧ isHex (upperHex (c &&& 15)) = true := by
  revert c
  exact forall_byte (by decide)

section Unescape

variable {mode : Encoding} {s t : Bytes} {c h l b : UInt8}

@[simp] theorem unescape_nil : unescape mode [] = some [] := by
  simp [unescape]

theorem unescape_cons (hc : c ≠ byte '%') :
    unescape mode (c :: s) =
      if mode.ofHost && c < 0x80 && shouldEscape c mode then none
      else (unescape mode s).map (c :: ·) := by
  match s with
  | [] | [_] | _ :: _ :: _ => simp only [unescape, if_neg hc]

theorem unescape_escape_cons (hh : isHex h = true) (hl : isHex l = true) :
    unescape mode (byte '%' :: h :: l :: s) =
      if allowed mode h l then (unescape mode s).map (unhexPair h l :: ·) else none := by
  simp [unescape, hh, hl]

theorem escapes_cons (hc : c ≠ byte '%') : escapes (c :: s) = escapes s := by
  match s with
  | [] | [_] | _ :: _ :: _ => simp only [escapes, if_neg hc]

theorem unescape_induction {motive : Bytes → Bytes → Prop} (nil : motive [] [])
    (byteCons : ∀ c s t, c ≠ byte '%' → unescape mode s = some t → motive s t →
      motive (c :: s) (c :: t))
    (escapeCons : ∀ h l s t, isHex h = true → isHex l = true → allowed mode h l = true →
      unescape mode s = some t → motive s t →
      motive (byte '%' :: h :: l :: s) (unhexPair h l :: t)) :
    ∀ {s t : Bytes}, unescape mode s = some t → motive s t
  | [], t, hs => by
      cases hs
      exact nil
  | c :: s, t, hs => by
      by_cases hc : c = byte '%'
      · subst hc
        match s, hs with
        | [], hs | [_], hs => simp [unescape] at hs
        | h :: l :: s, hs =>
          simp only [unescape, if_true] at hs
          split at hs
          · next hok =>
            simp only [Bool.and_eq_true] at hok
            obtain ⟨t, ht, rfl⟩ := Option.map_eq_some_iff.1 hs
            exact escapeCons h l s t hok.1.1 hok.1.2 hok.2 ht
              (unescape_induction nil byteCons escapeCons ht)
          · cases hs
      · rw [unescape_cons hc] at hs
        split at hs
        · cases hs
        · obtain ⟨t, ht, rfl⟩ := Option.map_eq_some_iff.1 hs
          exact byteCons c s t hc ht (unescape_induction nil byteCons escapeCons ht)

theorem length_unescape (hs : unescape mode s = some t) :
    t.length ≤ s.length ∧ (byte '%' ∈ s → t.length < s.length) := by
  refine unescape_induction
    (motive := fun s t => t.length ≤ s.length ∧ (byte '%' ∈ s → t.length < s.length))
    ⟨Nat.le_refl 0, fun h => nomatch h⟩ ?_ ?_ hs
  · intro c s t hc _ ih
    refine ⟨Nat.succ_le_succ ih.1, fun hmem => Nat.succ_lt_succ (ih.2 ?_)⟩
    exact (mem_cons.1 hmem).resolve_left (Ne.symm hc)
  · intro h l s t _ _ _ _ ih
    simp only [length_cons]
    omega

theorem unescape_of_not_mem (hmem : byte '%' ∉ s) (hmode : mode.ofHost = false) :
    unescape mode s = some s := by
  induction s with
  | nil => exact unescape_nil
  | cons c s ih =>
    rw [mem_cons, not_or] at hmem
    rw [unescape_cons (Ne.symm hmem.1), ih hmem.2, hmode]
    rfl

theorem unescape_eq_self_iff : unescape .path s = some s ↔ byte '%' ∉ s := by
  constructor
  · intro hs hmem
    exact Nat.lt_irrefl _ ((length_unescape hs).2 hmem)
  · intro hmem
    exact unescape_of_not_mem hmem rfl

/-- A byte of the decoded text that cannot be part of an escape stands in the text as it is, or
is what an escape stands for. -/
theorem mem_unescape_iff (hb : isHex b = false) (hp : b ≠ byte '%')
    (hs : unescape mode s = some t) : b ∈ t ↔ b ∈ s ∨ b ∈ escapes s := by
  refine unescape_induction (motive := fun s t => b ∈ t ↔ b ∈ s ∨ b ∈ escapes s)
    (by simp [escapes]) ?_ ?_ hs
  · intro c s t hc _ ih
    rw [escapes_cons hc, mem_cons, mem_cons, ih, or_assoc]
  intro h l s t hh hl _ _ ih
  have hbh : b ≠ h := fun heq => by simp [heq, hh] at hb
  have hbl : b ≠ l := fun heq => by simp [heq, hl] at hb
  simp only [escapes, if_true, mem_cons, ih, hp, hbh, hbl, false_or]
  exact or_left_comm

theorem percent_mem_unescape_iff (hs : unescape mode s = some t) :
    byte '%' ∈ t ↔ byte '%' ∈ escapes s := by
  refine unescape_induction (motive := fun s t => byte '%' ∈ t ↔ byte '%' ∈ escapes s)
    (by simp [escapes]) ?_ ?_ hs
  · intro c s t hc _ ih
    rw [escapes_cons hc, mem_cons, ih, or_iff_right (Ne.symm hc)]
  · intro h l s t _ _ _ _ ih
    simp only [escapes, if_true, mem_cons, ih]

theorem escapes_append_of_not_mem (hmem : byte '%' ∉ s) : escapes (s ++ t) = escapes t := by
  induction s with
  | nil => rfl
  | cons c s ih =>
    rw [mem_cons, not_or] at hmem
    rw [cons_append, escapes_cons (Ne.symm hmem.1), ih hmem.2]

theorem escapes_append (hs : unescape mode s = some t) (s' : Bytes) :
    escapes (s ++ s') = escapes s ++ escapes s' := by
  refine unescape_induction
    (motive := fun s _ => escapes (s ++ s') = escapes s ++ escapes s') rfl ?_ ?_ hs
  · intro c s t hc _ ih
    rw [cons_append, escapes_cons hc, ih, escapes_cons hc]
  · intro h l s t _ _ _ _ ih
    simp only [escapes, cons_append, if_true, ih]

theorem eq_of_unescape (hs : unescape mode s = some t) (hmem : byte '%' ∉ s) : t = s := by
  refine unescape_induction (motive := fun s t => byte '%' ∉ s → t = s) (fun _ => rfl) ?_ ?_ hs hmem
  · intro c s t _ _ ih hmem
    rw [ih fun hs => hmem (mem_cons_of_mem c hs)]
  · intro h l s t _ _ _ _ _ hmem
    exact absurd mem_cons_self hmem

/-- A byte that stands as it is in a text of this mode. -/
def literal (mode : Encoding) (c : UInt8) : Bool :=
  c != byte '%' && !(mode.ofHost && c < 0x80 && shouldEscape c mode)

theorem unescape_of_literal (hs : ∀ c ∈ s, literal mode c = true) :
    unescape mode s = some s := by
  induction s with
  | nil => exact unescape_nil
  | cons c s ih =>
    have hc := hs c mem_cons_self
    simp only [literal, Bool.and_eq_true, bne_iff_ne, Bool.not_eq_true'] at hc
    rw [unescape_cons hc.1, ih fun d hd => hs d (mem_cons_of_mem c hd), hc.2]
    rfl

set_option maxRecDepth 100000 in
theorem allowed_host (hc : isHex c = true) (h : allowed .host c l = true) :
    0x80 ≤ unhexPair c l ∨ unhexPair c l = byte '%' := by
  simp only [allowed, Bool.or_eq_true, decide_eq_true_eq, beq_iff_eq] at h
  refine h.imp_left fun hle => ?_
  have hshift : ∀ c, isHex c = true → 8 ≤ unhex c → 0x80 ≤ unhex c <<< (4 : UInt8) :=
    forall_byte (by decide)
  have hor : (unhex c <<< (4 : UInt8)).toNat ≤ (unhexPair c l).toNat := by
    exact Nat.left_le_or
  exact UInt8.le_iff_toNat_le.2 (Nat.le_trans (UInt8.le_iff_toNat_le.1 (hshift c hc hle)) hor)

theorem mem_unescape_host (hs : unescape .host s = some t) (hb : b ∈ t) :
    b ∈ s ∨ 0x80 ≤ b ∨ b = byte '%' := by
  refine unescape_induction (motive := fun s t => b ∈ t → b ∈ s ∨ 0x80 ≤ b ∨ b = byte '%')
    (fun hb => nomatch hb) ?_ ?_ hs hb
  · intro c s t _ _ ih hb
    cases hb with
    | head => exact .inl mem_cons_self
    | tail _ hb => exact (ih hb).imp_left (mem_cons_of_mem c)
  intro h l s t hh _ hall _ ih hb
  cases hb with
  | head => exact .inr (allowed_host hh hall)
  | tail _ hb =>
    refine (ih hb).imp_left fun hmem => ?_
    exact mem_cons_of_mem _ (mem_cons_of_mem _ (mem_cons_of_mem _ hmem))

theorem exists_mem_of_percent (hs : unescape .host s = some t) (hmem : byte '%' ∈ s) :
    ∃ b ∈ t, 0x80 ≤ b ∨ b = byte '%' := by
  refine unescape_induction
    (motive := fun s t => byte '%' ∈ s → ∃ b ∈ t, 0x80 ≤ b ∨ b = byte '%')
    (fun h => nomatch h) ?_ ?_ hs hmem
  · intro c s t hc _ ih hmem
    cases hmem with
    | head => exact absurd rfl hc
    | tail _ hmem =>
      obtain ⟨b, hb, hout⟩ := ih hmem
      exact ⟨b, mem_cons_of_mem c hb, hout⟩
  · intro h l s t hh _ hall _ _ _
    exact ⟨unhexPair h l, mem_cons_self, allowed_host hh hall⟩

theorem unescape_escape (hmode : mode.ofHost = false) (hall : ∀ h l, allowed mode h l = true)
    (hp : shouldEscape (byte '%') mode = true) (s : Bytes) :
    unescape mode (escape mode s) = some s := by
  induction s with
  | nil => exact unescape_nil
  | cons c s ih =>
    rw [escape, flatMap_cons, ← escape, escapeByte]
    split
    · next hesc =>
      obtain ⟨hh, hl⟩ := isHex_upperHex c
      simp only [cons_append, nil_append]
      rw [unescape_escape_cons hh hl, hall, if_pos rfl, ih, unhexPair_upperHex]
      rfl
    rename_i hesc
    have hc : c ≠ byte '%' := fun heq => hesc (heq ▸ hp)
    simp only [cons_append, nil_append]
    rw [unescape_cons hc, hmode, ih]
    rfl

theorem escape_of_not (h : ∀ c ∈ s, shouldEscape c mode = false) : escape mode s = s := by
  induction s with
  | nil => rfl
  | cons c s ih =>
    rw [escape, flatMap_cons, ← escape, ih fun d hd => h d (mem_cons_of_mem c hd),
      escapeByte, h c mem_cons_self]
    rfl

set_option maxRecDepth 100000 in
theorem mem_escape_path (h : b ∈ escape .path s) :
    isControl b = false ∧ b ≠ byte '?' ∧ b ≠ byte '#' ∧ b < 0x80 := by
  have hkept : ∀ c, shouldEscape c .path = false →
      isControl c = false ∧ c ≠ byte '?' ∧ c ≠ byte '#' ∧ c < 0x80 := forall_byte (by decide)
  have hhex : ∀ c, isHex c = true →
      isControl c = false ∧ c ≠ byte '?' ∧ c ≠ byte '#' ∧ c < 0x80 := forall_byte (by decide)
  obtain ⟨c, -, hb⟩ := mem_flatMap.1 h
  unfold escapeByte at hb
  split at hb
  · obtain ⟨hhi, hlo⟩ := isHex_upperHex c
    simp only [mem_cons, not_mem_nil, or_false] at hb
    obtain rfl | rfl | rfl := hb
    · decide
    · exact hhex _ hhi
    · exact hhex _ hlo
  rename_i hesc
  rw [mem_singleton.1 hb]
  exact hkept c (Bool.eq_false_iff.2 hesc)

end Unescape

/-! ## Cutting -/

variable {rest scheme host : Bytes} {u : URL}

section Cut

variable {b : UInt8} {s before after : Bytes}

theorem takeWhile_before (h : b ∉ before) :
    (before ++ b :: after).takeWhile (· != b) = before := by
  have hall : ∀ c ∈ before, (c != b) = true := fun c hc => bne_iff_ne.2 fun heq => h (heq ▸ hc)
  rw [takeWhile_append_of_pos hall, takeWhile_cons_of_neg (by simp), append_nil]

theorem dropWhile_before (h : b ∉ before) :
    (before ++ b :: after).dropWhile (· != b) = b :: after := by
  have hall : ∀ c ∈ before, (c != b) = true := fun c hc => bne_iff_ne.2 fun heq => h (heq ▸ hc)
  rw [dropWhile_append_of_pos hall, dropWhile_cons_of_neg (by simp)]

theorem dropWhile_cases (b : UInt8) (s : Bytes) :
    s.dropWhile (· != b) = [] ∨ ∃ after, s.dropWhile (· != b) = b :: after := by
  by_cases h : b ∈ s
  · obtain ⟨before, after, rfl, hbefore⟩ := eq_append_cons_of_mem h
    exact .inr ⟨after, dropWhile_before hbefore⟩
  · exact .inl (dropWhile_eq_nil_iff.2 fun c hc => bne_iff_ne.2 fun heq => h (heq ▸ hc))

theorem cut_before (h : b ∉ before) : cut b (before ++ b :: after) = (before, after) := by
  unfold cut
  rw [takeWhile_before h, dropWhile_before h]
  rfl

theorem cut_of_not_mem (h : b ∉ s) : cut b s = (s, []) := by
  have hall : ∀ c ∈ s, (c != b) = true := fun c hc => bne_iff_ne.2 fun heq => h (heq ▸ hc)
  unfold cut
  rw [takeWhile_eq_self_iff.2 hall, dropWhile_eq_nil_iff.2 hall]
  rfl

theorem cut_cases (b : UInt8) (s : Bytes) :
    (b ∉ s ∧ cut b s = (s, [])) ∨
      ∃ before after, s = before ++ b :: after ∧ b ∉ before ∧ cut b s = (before, after) := by
  by_cases h : b ∈ s
  · obtain ⟨before, after, rfl, hbefore⟩ := eq_append_cons_of_mem h
    exact .inr ⟨before, after, rfl, hbefore, cut_before hbefore⟩
  · exact .inl ⟨h, cut_of_not_mem h⟩

theorem cutLast_after (h : b ∉ after) : cutLast b (before ++ b :: after) = some (before, after) := by
  have hrev : (before ++ b :: after).reverse = after.reverse ++ b :: before.reverse := by simp
  have hnot : b ∉ after.reverse := fun hmem => h (mem_reverse.1 hmem)
  unfold cutLast
  rw [if_pos (by simp), hrev, takeWhile_before hnot, dropWhile_before hnot]
  simp

theorem cutLast_cases (b : UInt8) (s : Bytes) :
    (b ∉ s ∧ cutLast b s = none) ∨
      ∃ before after, s = before ++ b :: after ∧ b ∉ after ∧
        cutLast b s = some (before, after) := by
  by_cases h : b ∈ s
  · obtain ⟨after, before, hrev, hafter⟩ :=
      eq_append_cons_of_mem (mem_reverse.2 h)
    have hs : s = before.reverse ++ b :: after.reverse := by
      rw [← reverse_reverse s, hrev]
      simp
    have hnot : b ∉ after.reverse := fun hmem => hafter (mem_reverse.1 hmem)
    refine .inr ⟨before.reverse, after.reverse, hs, hnot, ?_⟩
    rw [hs]
    exact cutLast_after hnot
  · exact .inl ⟨h, if_neg h⟩

theorem splitQuery_eq_iff : splitQuery s = (rest, [], false) ↔ rest = s ∧ byte '?' ∉ s := by
  unfold splitQuery
  obtain ⟨hmem, hcut⟩ | ⟨before, after, hs, hbefore, hcut⟩ := cut_cases (byte '?') s
  · rw [if_neg (fun h => hmem (mem_of_getLast? h.1)), hcut]
    simp [hmem, eq_comm]
  have hmem : byte '?' ∈ s := by simp [hs]
  constructor
  · intro h
    split at h
    · simp at h
    rename_i hforce
    rw [hcut] at h
    simp only [Prod.mk.injEq] at h
    -- an empty query is a question mark at the end
    refine absurd ⟨?_, ?_⟩ hforce
    · rw [hs, h.2.1]
      simp
    · rw [hs, h.2.1, count_append, count_eq_zero.2 hbefore]
      simp
  · rintro ⟨-, hnot⟩
    exact absurd hmem hnot

end Cut

/-! ## Hierarchical URLs -/

theorem getScheme_cons (hne : scheme ≠ []) (halpha : ∀ c ∈ scheme, isAlpha c = true) :
    getScheme (scheme ++ byte ':' :: rest) = some (scheme, rest) := by
  have hall : ∀ c ∈ scheme, schemeByte c = true := fun c hc => by simp [schemeByte, halpha c hc]
  have htake : (scheme ++ byte ':' :: rest).takeWhile schemeByte = scheme := by
    rw [takeWhile_append_of_pos hall, takeWhile_cons_of_neg (by decide),
      append_nil]
  have hdrop : (scheme ++ byte ':' :: rest).dropWhile schemeByte = byte ':' :: rest := by
    rw [dropWhile_append_of_pos hall, dropWhile_cons_of_neg (by decide)]
  obtain ⟨c, scheme', rfl⟩ := exists_cons_of_ne_nil hne
  have hc : isAlpha c = true := halpha c mem_cons_self
  have hcolon : c ≠ byte ':' := by
    rintro rfl
    exact absurd hc (by decide)
  unfold getScheme
  rw [cons_append] at htake hdrop ⊢
  simp only [if_neg hcolon, hc, Bool.not_true, Bool.false_eq_true, if_false, hdrop, if_true, htake]

theorem eq_of_getScheme {s : Bytes} (h : getScheme s = some (scheme, rest)) (hne : scheme ≠ []) :
    s = scheme ++ byte ':' :: rest := by
  unfold getScheme at h
  split at h
  · cases h
    exact absurd rfl hne
  split at h
  · cases h
  split at h
  · cases h
    exact absurd rfl hne
  split at h
  · next d rest' hdrop =>
    split at h
    · next hd =>
      cases h
      rw [← hd, ← hdrop, takeWhile_append_dropWhile]
    · cases h
      exact absurd rfl hne
  · cases h
    exact absurd rfl hne

section Hierarchical

variable {parseIPv6 : Bytes → Bool}

/-- The text is `name://authority` with a rooted path, without user and query. A number sign at
its end is an empty fragment. -/
structure Spelled (s name authority raw hash : Bytes) : Prop where
  eq : s = name ++ byte ':' :: byte '/' :: byte '/' :: (authority ++ raw) ++ hash
  noSlash : byte '/' ∉ authority
  noUser : byte '@' ∉ authority
  rooted : raw = [] ∨ ∃ rest, raw = byte '/' :: rest
  noQuery : byte '?' ∉ authority ++ raw
  noFragment : byte '#' ∉ authority ++ raw
  hash : hash = [] ∨ hash = [byte '#']

/-- The URL has a scheme, a host and a path, and nothing else. -/
structure URL.Plain (u : URL) : Prop where
  scheme : u.scheme ≠ []
  opaquePart : u.opaquePart = []
  user : u.user = none
  host : u.host ≠ []
  rawQuery : u.rawQuery = []
  forceQuery : u.forceQuery = false
  fragment : u.fragment = []

section Spelled

variable {s name authority raw hash : Bytes}

theorem takeWhile_authority (h : Spelled s name authority raw hash) :
    (authority ++ raw).takeWhile (· != byte '/') = authority := by
  obtain hraw | ⟨rest, hraw⟩ := h.rooted
  · rw [hraw, append_nil]
    exact congrArg Prod.fst (cut_of_not_mem h.noSlash)
  · rw [hraw]
    exact takeWhile_before h.noSlash

theorem dropWhile_authority (h : Spelled s name authority raw hash) :
    (authority ++ raw).dropWhile (· != byte '/') = raw := by
  obtain hraw | ⟨rest, hraw⟩ := h.rooted
  · rw [hraw, append_nil, dropWhile_eq_nil_iff]
    exact fun c hc => bne_iff_ne.2 fun heq => h.noSlash (heq ▸ hc)
  · rw [hraw]
    exact dropWhile_before h.noSlash

theorem parseAuthority_of_not_mem (h : byte '@' ∉ authority) :
    parseAuthority parseIPv6 scheme authority =
      (parseHost parseIPv6 scheme authority).map fun host => (none, host) := by
  unfold parseAuthority
  rw [show cutLast (byte '@') authority = none from if_neg h]

theorem parse_of_spelled (h : Spelled s name authority raw hash) (hne : name ≠ [])
    (halpha : ∀ c ∈ name, isAlpha c = true) (hcontrol : s.any isControl = false) :
    parse parseIPv6 s = (parseHost parseIPv6 (name.map toLower) authority).bind fun host =>
      URL.setPath { URL.empty with scheme := name.map toLower, host := host } raw := by
  have hnot : ∀ b, isAlpha b = false → b ∉ name := fun b hb hmem => by
    simp [halpha b hmem] at hb
  have hbase : parse parseIPv6 s = parseBase parseIPv6
      (name ++ byte ':' :: byte '/' :: byte '/' :: (authority ++ raw)) := by
    have hfree : byte '#' ∉ name ++ byte ':' :: byte '/' :: byte '/' :: (authority ++ raw) := by
      simp only [mem_append, mem_cons, not_or]
      have hfrag := h.noFragment
      simp only [mem_append, not_or] at hfrag
      exact ⟨hnot _ (by decide), by decide, by decide, by decide, hfrag.1, hfrag.2⟩
    have hcut : cut (byte '#') s =
        (name ++ byte ':' :: byte '/' :: byte '/' :: (authority ++ raw), []) := by
      obtain hhash | hhash := h.hash
      · rw [h.eq, hhash, append_nil]
        exact cut_of_not_mem hfree
      · rw [h.eq, hhash]
        exact cut_before hfree
    unfold parse
    rw [hcut]
    simp
  have hclean : (name ++ byte ':' :: byte '/' :: byte '/' :: (authority ++ raw)).any isControl
      = false := by
    rw [h.eq, any_append, Bool.or_eq_false_iff] at hcontrol
    exact hcontrol.1
  have hstar : name ++ byte ':' :: byte '/' :: byte '/' :: (authority ++ raw) ≠ ascii "*" := by
    intro heq
    obtain ⟨c, name', rfl⟩ := exists_cons_of_ne_nil hne
    have hc : c = byte '*' := (List.cons.inj heq).1
    exact hnot (byte '*') (by decide) (hc ▸ mem_cons_self)
  have hquery : splitQuery (byte '/' :: byte '/' :: (authority ++ raw)) =
      (byte '/' :: byte '/' :: (authority ++ raw), [], false) := by
    rw [splitQuery_eq_iff]
    refine ⟨rfl, ?_⟩
    simp only [mem_cons, not_or]
    exact ⟨by decide, by decide, h.noQuery⟩
  have hlower : name.map toLower ≠ [] := fun heq => hne (map_eq_nil_iff.1 heq)
  have hroot : (ascii "/").isPrefixOf (byte '/' :: byte '/' :: (authority ++ raw)) = true := rfl
  have hroots : (ascii "//").isPrefixOf (byte '/' :: byte '/' :: (authority ++ raw)) = true := rfl
  rw [hbase]
  unfold parseBase
  rw [if_neg (by rw [hclean]; exact Bool.false_ne_true), if_neg hstar, getScheme_cons hne halpha]
  simp only [Option.bind_eq_bind, Option.bind_some, hquery, hroot, hroots, hlower, Bool.not_true,
    Bool.false_eq_true, if_false, ne_eq, not_false_eq_true, true_or, and_self, if_true,
    drop_succ_cons, drop_zero, takeWhile_authority h, dropWhile_authority h,
    parseAuthority_of_not_mem h.noUser]
  cases parseHost parseIPv6 (name.map toLower) authority with
  | none | some host => rfl

theorem unescape_eq_nil {mode : Encoding} (h : unescape mode s = some []) : s = [] := by
  refine unescape_induction (motive := fun s t => t = [] → s = []) (fun _ => rfl) ?_ ?_ h rfl
  · intro c s t _ _ _ heq
    cases heq
  · intro h l s t _ _ _ _ _ heq
    cases heq

theorem URL.setPath_eq_some {v : URL} (h : u.setPath raw = some v) :
    ∃ path rawPath, unescape .path raw = some path ∧
      v = { u with path := path, rawPath := rawPath } := by
  obtain ⟨path, hpath, rfl⟩ := Option.map_eq_some_iff.1 h
  exact ⟨path, _, hpath, rfl⟩

theorem parseAuthority_eq_none (h : parseAuthority parseIPv6 scheme authority = some (none, host)) :
    byte '@' ∉ authority ∧ parseHost parseIPv6 scheme authority = some host := by
  obtain ⟨hmem, hcut⟩ | ⟨before, after, -, -, hcut⟩ := cutLast_cases (byte '@') authority
  · rw [parseAuthority_of_not_mem hmem] at h
    obtain ⟨host', hhost, heq⟩ := Option.map_eq_some_iff.1 h
    cases heq
    exact ⟨hmem, hhost⟩
  unfold parseAuthority at h
  rw [hcut] at h
  simp only [Option.bind_eq_bind, Option.bind_eq_some_iff] at h
  obtain ⟨_, _, h⟩ := h
  split at h
  · cases h
  split at h
  · obtain ⟨_, _, h⟩ := Option.bind_eq_some_iff.1 h
    cases h
  obtain ⟨_, _, h⟩ := Option.bind_eq_some_iff.1 h
  obtain ⟨_, _, h⟩ := Option.bind_eq_some_iff.1 h
  cases h

theorem parse_fragment (h : parse parseIPv6 s = some u) (hfrag : u.fragment = []) :
    ∃ base hash, s = base ++ hash ∧ byte '#' ∉ base ∧ (hash = [] ∨ hash = [byte '#']) ∧
      parseBase parseIPv6 base = some u := by
  obtain ⟨v, hv, h⟩ := Option.bind_eq_some_iff.1 h
  -- what stands behind the number sign decodes to the fragment, so it is empty as well
  have hempty : (cut (byte '#') s).2 = [] ∧ v = u := by
    split at h
    · next hnil => exact ⟨hnil, Option.some.inj h⟩
    obtain ⟨frag, hun, rfl⟩ := Option.map_eq_some_iff.1 h
    obtain rfl : frag = [] := hfrag
    exact absurd (unescape_eq_nil hun) ‹_›
  obtain ⟨hafter, rfl⟩ := hempty
  obtain ⟨hmem, hcut⟩ | ⟨before, after, hs, hbefore, hcut⟩ := cut_cases (byte '#') s
  · rw [hcut] at hv
    exact ⟨s, [], (append_nil s).symm, hmem, .inl rfl, hv⟩
  rw [hcut] at hv hafter
  obtain rfl : after = [] := hafter
  exact ⟨before, [byte '#'], hs, hbefore, .inr rfl, hv⟩

theorem spelled_of_parse (h : parse parseIPv6 s = some u) (hu : u.Plain) :
    ∃ name authority raw hash, Spelled s name authority raw hash ∧ name.map toLower = u.scheme ∧
      parseHost parseIPv6 u.scheme authority = some u.host ∧
      unescape .path raw = some u.path := by
  obtain ⟨base, hash, hs, hnohash, hhash, hbase⟩ := parse_fragment h hu.fragment
  unfold parseBase at hbase
  split at hbase
  · cases hbase
  split at hbase
  · cases hbase
    exact absurd rfl hu.scheme
  obtain ⟨⟨name, rest⟩, hscheme, hbase⟩ := Option.bind_eq_some_iff.1 hbase
  obtain ⟨rest', rawQuery, forceQuery, hquery⟩ : ∃ rest' rawQuery forceQuery,
      splitQuery rest = (rest', rawQuery, forceQuery) := ⟨_, _, _, rfl⟩
  simp only [hquery] at hbase
  split at hbase
  · split at hbase
    · cases hbase
      exact absurd rfl hu.host
    split at hbase
    · cases hbase
    · obtain ⟨path, rawPath, -, rfl⟩ := URL.setPath_eq_some hbase
      exact absurd rfl hu.host
  split at hbase
  · next hroots =>
    obtain ⟨⟨user, host⟩, hauth, hbase⟩ := Option.bind_eq_some_iff.1 hbase
    obtain ⟨path, rawPath, hpath, rfl⟩ := URL.setPath_eq_some hbase
    obtain rfl : user = none := hu.user
    obtain ⟨hnouser, hhost⟩ := parseAuthority_eq_none hauth
    obtain rfl : rawQuery = [] := hu.rawQuery
    obtain rfl : forceQuery = false := hu.forceQuery
    obtain ⟨rfl, hnoquery⟩ := splitQuery_eq_iff.1 hquery
    have hname : name ≠ [] := fun heq => hu.scheme (by rw [heq]; rfl)
    obtain ⟨after, rfl⟩ := isPrefixOf_iff_prefix.1 hroots.2
    have hbase := eq_of_getScheme hscheme hname
    refine ⟨name, after.takeWhile (· != byte '/'), after.dropWhile (· != byte '/'), hash,
      ?_, rfl, hhost, hpath⟩
    have hsplit := takeWhile_append_dropWhile (p := (· != byte '/')) (l := after)
    refine ⟨?_, ?_, hnouser, ?_, ?_, ?_, hhash⟩
    · rw [hsplit, hs, hbase]
      rfl
    · intro hmem
      simpa using mem_takeWhile_imp hmem
    · exact dropWhile_cases (byte '/') after
    · rw [hsplit]
      exact fun hmem => hnoquery (mem_append_right _ hmem)
    rw [hsplit]
    intro hmem
    rw [hbase] at hnohash
    exact hnohash (by simp [hmem])
  · obtain ⟨path, rawPath, -, rfl⟩ := URL.setPath_eq_some hbase
    exact absurd rfl hu.host

end Spelled

theorem URL.string_of_plain (hu : u.Plain) {raw : Bytes} (hpath : u.escapedPath = byte '/' :: raw) :
    u.string = u.scheme ++ byte ':' :: byte '/' :: byte '/' ::
      (escape .host u.host ++ byte '/' :: raw) := by
  have hfront : u.front =
      u.scheme ++ byte ':' :: byte '/' :: byte '/' :: escape .host u.host := by
    simp only [URL.front, hu.scheme, hu.host, hu.user, false_and, and_false, or_self, if_false,
      ne_eq, not_false_eq_true, true_or, if_true, append_nil, append_assoc]
    rfl
  have hback : u.back = byte '/' :: raw := by
    have hne : u.front ≠ [] := by
      rw [hfront]
      simp
    simp [URL.back, hpath, hne]
  unfold URL.string
  rw [hu.opaquePart, hu.rawQuery, hu.forceQuery, hu.fragment, hfront, hback]
  simp

/-! ## Hosts -/

theorem mem_of_isIPv6 {s : Bytes} (h : isIPv6 parseIPv6 s = true) : byte ':' ∈ s := by
  unfold isIPv6 at h
  split at h
  · next c hc =>
    rw [Bool.and_eq_true, beq_iff_eq] at h
    exact h.1 ▸ mem_of_find?_eq_some hc
  · cases h

set_option maxRecDepth 100000 in
theorem unescape_port {port : Bytes} (h : validOptionalPort port = true) :
    unescape .host port = some port := by
  refine unescape_of_literal fun c hc => ?_
  have hdigit : ∀ c, isDigit c = true → literal .host c = true := forall_byte (by decide)
  match port, h with
  | d :: ds, h =>
    simp only [validOptionalPort, Bool.and_eq_true, beq_iff_eq] at h
    cases hc with
    | head =>
      rw [h.1]
      decide
    | tail _ hc => exact hdigit c (all_eq_true.1 h.2 c hc)

theorem strip_brackets (name : Bytes) :
    (if (byte '[' :: name ++ [byte ']']).head? = some (byte '[') ∧
        (byte '[' :: name ++ [byte ']']).getLast? = some (byte ']') then
      (byte '[' :: name ++ [byte ']']).tail.dropLast else byte '[' :: name ++ [byte ']']) = name := by
  rw [if_pos ⟨rfl, getLast?_concat⟩]
  simp

theorem splitHostPort_brackets {name port : Bytes} (h : validOptionalPort port = true) :
    (URL.splitHostPort (byte '[' :: name ++ byte ']' :: port)).1 = name := by
  match port, h with
  | [], _ =>
    unfold URL.splitHostPort
    obtain ⟨-, hcut⟩ | ⟨before, after, hs, hafter, hcut⟩ :=
      cutLast_cases (byte ':') (byte '[' :: name ++ [byte ']'])
    · rw [hcut]
      exact strip_brackets name
    · -- the last colon stands before the bracket, which is no digit
      have hlast : byte ']' ∈ byte ':' :: after := by
        have hgl : (before ++ byte ':' :: after).getLast? = some (byte ']') := by
          rw [← hs]
          exact getLast?_concat
        rw [getLast?_append, getLast?_cons, Option.some_or, ← getLast?_cons] at hgl
        exact mem_of_getLast? hgl
      have hdigits : after.all isDigit = false := by
        rw [all_eq_false]
        refine ⟨byte ']', (mem_cons.1 hlast).resolve_left (by decide), by decide⟩
      rw [hcut]
      simp only [hdigits, Bool.false_eq_true, if_false]
      exact strip_brackets name
  | c :: ds, h =>
    simp only [validOptionalPort, Bool.and_eq_true, beq_iff_eq] at h
    obtain ⟨rfl, hds⟩ := h
    have hnot : byte ':' ∉ ds := fun hmem =>
      absurd (all_eq_true.1 hds _ hmem) (by decide)
    have hcut : cutLast (byte ':') (byte '[' :: name ++ byte ']' :: byte ':' :: ds) =
        some (byte '[' :: name ++ [byte ']'], ds) := by
      have hassoc : byte '[' :: name ++ byte ']' :: byte ':' :: ds =
          byte '[' :: name ++ [byte ']'] ++ byte ':' :: ds := by
        rw [append_assoc]
        rfl
      rw [hassoc]
      exact cutLast_after hnot
    unfold URL.splitHostPort
    rw [hcut]
    simp only [hds, if_true]
    exact strip_brackets name

theorem eq_of_splitHostPort {name : Bytes} (hbracket : byte '[' ∉ host) (hcolon : byte ':' ∉ name)
    (h : URL.splitHostPort host = (name, [])) : host = name ∨ host = name ++ [byte ':'] := by
  have hhead : ∀ s : Bytes, byte '[' ∉ s → s.head? ≠ some (byte '[') := fun s hs heq =>
    hs (mem_of_head? heq)
  unfold URL.splitHostPort at h
  obtain ⟨-, hcut⟩ | ⟨before, after, rfl, -, hcut⟩ := cutLast_cases (byte ':') host
  · rw [hcut] at h
    simp only [hhead host hbracket, false_and, if_false, Prod.mk.injEq] at h
    exact .inl h.1
  have hbefore : byte '[' ∉ before := fun hmem => hbracket (mem_append_left _ hmem)
  rw [hcut] at h
  by_cases hdigits : after.all isDigit = true
  · simp only [hdigits, if_true, hhead before hbefore, false_and, if_false,
      Prod.mk.injEq] at h
    rw [h.1, h.2]
    exact .inr rfl
  simp only [hdigits, hhead _ hbracket, false_and, Bool.false_eq_true, if_false,
    Prod.mk.injEq] at h
  exact absurd (h.1 ▸ by simp) hcolon

theorem colon_of_bracket {authority : Bytes} (hmem : byte '[' ∈ authority)
    (h : parseHost parseIPv6 scheme authority = some host) :
    byte ':' ∈ (URL.splitHostPort host).1 := by
  unfold parseHost at h
  rw [if_pos hmem] at h
  split at h
  · cases h
  split at h
  · cases h
  rename_i hostname port _ hok
  simp only [not_or, Bool.not_eq_true, Bool.not_eq_false'] at hok
  obtain ⟨port', hport, h⟩ := Option.bind_eq_some_iff.1 h
  obtain rfl : port = port' := Option.some.inj ((unescape_port hok.2).symm.trans hport)
  obtain ⟨hostname', -, h⟩ := Option.bind_eq_some_iff.1 h
  split at h
  · next hip =>
    cases h
    rw [splitHostPort_brackets hok.2]
    exact mem_of_isIPv6 hip
  · cases h

theorem parseHost_of_not_mem (h : byte '[' ∉ host) :
    parseHost parseIPv6 scheme host =
      if !validOptionalPort (colonPort scheme host) then none else unescape .host host := by
  unfold parseHost
  rw [if_neg h]

end Hierarchical

end Lcm.Net
