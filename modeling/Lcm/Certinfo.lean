import Lcm.Issue.Domains

/-!
# The details of a certificate

`certinfo.go` shows what a stored certificate says of itself. Nothing is taken from the columns of
its row. A certificate that cannot be read is reported with the reason, on one line and cut short.
-/

namespace Lcm.Certinfo

variable (P : Platform)

inductive ValidityStatus where
  | notYetValid
  | valid
  | expired
deriving DecidableEq

def ValidityStatus.text : ValidityStatus → String
  | notYetValid => "not_yet_valid"
  | valid => "valid"
  | expired => "expired"

structure Validity where
  notBefore : Time
  notAfter : Time
  status : ValidityStatus
  daysRemaining : Int
deriving DecidableEq

def day : Duration := 24 * 3600 * second

/-- `validity`: the certificate's own dates, and its status at `now`. -/
def validity (c : X509) (now : Time) : Validity where
  notBefore := c.notBefore
  notAfter := c.notAfter
  status :=
    if now < c.notBefore then .notYetValid
    else if c.notAfter < now then .expired
    else .valid
  -- rounded down, so negative once expired
  daysRemaining := (c.notAfter - now) / day

/-- The first block of a certificate; others are skipped. Each round consumes a block, so `fuel`
beyond the length of the text is never used up. -/
def firstBlock : Nat → String → Option PemBlock
  | 0, _ => none
  | fuel + 1, data =>
    match P.pemDecode data with
    | none => none
    | some (b, rest) => if b.type ≠ "CERTIFICATE" then firstBlock fuel rest else some b

/-- `firstCertificate`, or the text of its error. -/
def firstCertificate (data : String) : Except String X509 :=
  if P.trimSpace data = "" then .error "no certificate is stored"
  else match firstBlock P (data.utf8ByteSize + 1) data with
    | none => .error "the stored data contains no PEM CERTIFICATE block"
    | some b =>
      match P.parseCertificate b.bytes with
      | .error e => .error ("the certificate could not be parsed: " ++ e.text)
      | .ok c => .ok c

/-- One certificate of the stored chain. -/
structure ChainEntry where
  subjectCN : String
  issuerDN : String
  notAfter : Time
deriving DecidableEq

/-- `parseChain`: the certificates that parse, and the first error. -/
def parseChain : Nat → String → List ChainEntry × Option String
  | 0, _ => ([], none)
  | fuel + 1, data =>
    match P.pemDecode data with
    | none => ([], none)
    | some (b, rest) =>
      let (entries, err) := parseChain fuel rest
      if b.type ≠ "CERTIFICATE" then (entries, err)
      else match P.parseCertificate b.bytes with
        | .error e => (entries, some ("a chain certificate could not be parsed: " ++ e.text))
        | .ok c => (⟨c.commonName, c.issuerDN, c.notAfter⟩ :: entries, err)

/-- What the certificate says of itself. -/
structure Details where
  subjectCN : String
  issuerDN : String
  validity : Validity
  dns : List String
  uri : List String
  ca : Bool
  chain : List ChainEntry
  chainError : Blob
deriving DecidableEq

structure Result where
  available : Bool
  source : String
  error : String
  reason : Blob
  details : Option Details
deriving DecidableEq

/-- `maxReason`, in bytes. -/
def maxReason : Nat := 200

/-- `bounded`: on one line; the cut may fall inside a character. -/
def bounded (s : String) : Blob :=
  let line := (String.ofList (List.intercalate [' '] (Issue.fields s.toList))).toUTF8.toList
  if line.length > maxReason then line.take maxReason ++ "…".toUTF8.toList else line

/-- `describe`, with the chain. -/
def describe (c : X509) (chain : List ChainEntry × Option String) (now : Time) : Details where
  subjectCN := c.commonName
  issuerDN := c.issuerDN
  validity := validity c now
  dns := c.dnsNames
  uri := c.uris
  ca := c.isCA
  chain := chain.1
  chainError := match chain.2 with
    | none => []
    | some e => bounded e

def decode (certPEM chainPEM : String) (now : Time) : Result :=
  match firstCertificate P certPEM with
  | .error e => ⟨false, "certificate", "details_unavailable", bounded e, none⟩
  | .ok leaf =>
    ⟨true, "certificate", "", [],
      some (describe leaf (parseChain P (chainPEM.utf8ByteSize + 1) chainPEM) now)⟩

end Lcm.Certinfo
