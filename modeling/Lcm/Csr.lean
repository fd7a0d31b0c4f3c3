import Lcm.Platform

/-!
# SPIFFE ids and certificate-signing requests

`csr.go` as pure functions over the platform's parsers.
-/

namespace Lcm.Csr

variable (P : Platform)

def maxCSRBytes : Nat := 16384

def maxSPIFFEIDBytes : Nat := 2048

/-- A parsed `spiffe://<trust-domain>/<path>` identity. -/
structure SPIFFEID where
  trustDomain : String
  path : String
  raw : String
deriving DecidableEq

/-- `String`: the canonical form. -/
def SPIFFEID.string (id : SPIFFEID) : String := "spiffe://" ++ id.trustDomain ++ "/" ++ id.path

/-- An ASCII control character, DEL included. In UTF-8 no other character has such a byte. -/
def isControl (c : Char) : Bool := c.toNat < 0x20 || c.toNat == 0x7f

def hasControl (s : String) : Bool := s.toList.any isControl

/-- Lowercase letters, digits, dots and hyphens. -/
def trustDomainChar (c : Char) : Bool :=
  ('a' ≤ c && c ≤ 'z') || ('0' ≤ c && c ≤ '9') || c == '.' || c == '-'

def validTrustDomain (host : String) : Bool := host.toList.all trustDomainChar

/-- `strings.TrimPrefix(path, "/")`. -/
def trimSlash (path : String) : String :=
  match path.toList with
  | '/' :: cs => String.ofList cs
  | _ => path

/-- `ParseSPIFFEID`; an error is `ErrSPIFFEID`. -/
def parseSPIFFEID (s : String) : Option SPIFFEID := do
  if s.utf8ByteSize = 0 ∨ s.utf8ByteSize > maxSPIFFEIDBytes ∨ hasControl s then none
  let u ← P.urlParse s
  if u.scheme ≠ "spiffe" ∨ u.opaquePart ≠ "" then none
  if u.hasUser ∨ u.rawQuery ≠ "" ∨ u.forceQuery ∨ u.fragment ≠ "" ∨ u.rawFragment ≠ "" then none
  if u.port ≠ "" then none
  let host := u.hostname
  if host = "" ∨ host.utf8ByteSize > 253 ∨ !validTrustDomain host then none
  let path := trimSlash u.path
  if path = "" ∨ hasControl path then none
  some ⟨host, path, s⟩

variable {P} in
theorem parseSPIFFEID_eq_some {s : String} {id : SPIFFEID} :
    parseSPIFFEID P s = some id ↔
      s.utf8ByteSize ≠ 0 ∧ s.utf8ByteSize ≤ maxSPIFFEIDBytes ∧ hasControl s = false ∧
      ∃ u, P.urlParse s = some u ∧ (u.scheme = "spiffe" ∧ u.opaquePart = "") ∧
        (u.hasUser = false ∧ u.rawQuery = "" ∧ u.forceQuery = false ∧ u.fragment = "" ∧
          u.rawFragment = "") ∧ u.port = "" ∧
        (u.hostname ≠ "" ∧ u.hostname.utf8ByteSize ≤ 253 ∧ validTrustDomain u.hostname = true) ∧
        (trimSlash u.path ≠ "" ∧ hasControl (trimSlash u.path) = false) ∧
        id = ⟨u.hostname, trimSlash u.path, s⟩ := by
  simp only [parseSPIFFEID, Option.bind_eq_bind, Option.bind_none, Option.ite_none_left_eq_some,
    Option.bind_eq_some_iff, Option.some.injEq, eq_comm (a := id), not_or, ne_eq, not_not,
    Bool.not_eq_true, gt_iff_lt, Nat.not_lt, Bool.not_eq_false', and_assoc]

/-- `keyStrength`: the size in bits, unless the key is too weak. -/
def keyStrength : PublicKey → Option Nat
  | .rsa bits _ => if bits < 2048 then none else some bits
  | .ecdsa bits _ => if bits < 256 then none else some bits
  | .ed25519 _ => some 256
  | .other _ => none

/-- `ParseCSR`; the callers do not tell its errors apart. -/
def parseCSR (pem : String) : Option CertificateSigningRequest := do
  if pem.utf8ByteSize > maxCSRBytes then none
  let (block, _) ← P.pemDecode pem
  if block.type ≠ "CERTIFICATE REQUEST" then none
  let csr ← P.parseCertificateRequest block.bytes
  if !csr.signatureOK then none
  let _ ← keyStrength csr.pub
  some csr

/-- `ValidateSANs`: every name of the CSR is among the requested ones, ignoring case. -/
def validateSANs (requested csrProvided : List String) : Bool :=
  csrProvided.all fun n => requested.any fun r => P.toLower r == P.toLower n

def encodeCertPEM (der : Blob) : String := P.pemEncode ⟨"CERTIFICATE", der⟩

def fingerprint (der : Blob) : String := P.sha256 der

end Lcm.Csr
