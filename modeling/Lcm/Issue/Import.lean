import Lcm.Issue.Acme

/-!
# Importing a certificate issued elsewhere

`importcert.go`: an ACME certificate obtained outside lcm is recorded as a generic
certificate with its key sealed, so that lcm renews it like its own.
-/

namespace Lcm.Issue

open Conc Db Svc Csr Ca Authz

variable (P : Platform)

def maxImportPEMBytes : Nat := 65536

def maxImportChain : Nat := 10

/-- The certificates of one PEM text. Every block must be a certificate and nothing but
blocks may remain. Each round consumes a block, so `fuel` beyond the length of the text is
never used up. -/
def decodeCerts : Nat → String → Except Err (List (X509 × Blob))
  | 0, _ => .ok []
  | fuel + 1, rest =>
    match P.pemDecode rest with
    | none =>
      if P.trimSpace rest ≠ "" then
        .error (invalid "certificate" "the input contains text that is not PEM")
      else .ok []
    | some (blk, rest) =>
      if blk.type ≠ "CERTIFICATE" then
        .error (invalid "certificate"
          "only CERTIFICATE blocks are accepted (the private key goes in its own field)")
      else match P.parseCertificate blk.bytes with
        | .error _ => .error (invalid "certificate" "a certificate could not be parsed")
        | .ok c => do
          let cs ← decodeCerts fuel rest
          .ok ((c, blk.bytes) :: cs)

/-- The chain without the leaf and without repetitions. -/
def chainOf (leaf : Blob) (rest : List (X509 × Blob)) : List Blob :=
  rest.foldl (fun out c => if c.2 = leaf ∨ c.2 ∈ out then out else out ++ [c.2]) []

/-- `parseImportCerts`: the leaf and the canonical PEM of its chain. -/
def parseImportCerts (certPEM chainPEM : String) : Except Err (X509 × Blob × String) := do
  if certPEM.utf8ByteSize > maxImportPEMBytes ∨ chainPEM.utf8ByteSize > maxImportPEMBytes then
    .error (invalid "certificate" "certificate input is too large")
  let own ← decodeCerts P (certPEM.utf8ByteSize + 1) certPEM
  let extra ← decodeCerts P (chainPEM.utf8ByteSize + 1) chainPEM
  match own ++ extra with
  | [] => .error (invalid "certificate" "no certificate found")
  | (leaf, der) :: rest =>
    if leaf.isCA then
      .error (invalid "certificate"
        "the first certificate must be the server certificate, not a CA")
    else
      let chain := chainOf der rest
      if chain.length > maxImportChain then
        .error (invalid "chain" "the chain has too many certificates")
      else .ok (leaf, der, "\n".intercalate (chain.map fun d => P.trimSpace (encodeCertPEM P d)))

/-- `importDomains`: the DNS names the certificate is renewed for. -/
def importDomains (leaf : X509) : Except Err (List String) :=
  if leaf.otherNames ∨ leaf.uris ≠ [] then
    .error (invalid "certificate" "only certificates for DNS names can be renewed through ACME")
  else
    let names := if leaf.dnsNames = [] ∧ leaf.commonName ≠ "" then [leaf.commonName]
      else leaf.dnsNames
    if names = [] then .error (invalid "certificate" "the certificate names no DNS domain")
    else match validateACMEDomains P names with
      | .ok ds => .ok ds
      | .error (.invalid _ m) => .error (invalid "certificate" ("certificate domains: " ++ m))
      | .error e => .error e

/-- The first block of a private key, with the text it begins. As in `decodeCerts`, `fuel` beyond
the length of the text is never used up. -/
def keyBlock : Nat → String → Option (PemBlock × String)
  | 0, _ => none
  | fuel + 1, text =>
    match P.pemDecode text with
    | none => none
    | some (blk, rest) =>
      if hasSuffix blk.type "PRIVATE KEY" then some (blk, text) else keyBlock fuel rest

def blockKey (blk : PemBlock) : Except Err PrivateKey :=
  let parsed (key : Option PrivateKey) : Except Err PrivateKey :=
    match key with
    | none => .error (invalid "key" "the private key could not be parsed")
    | some key => .ok key
  if blk.type = "PRIVATE KEY" then
    if P.pkcs8NoSigner blk.bytes then .error (invalid "key" "unsupported private key type")
    else parsed (P.parsePKCS8 blk.bytes)
  else if blk.type = "RSA PRIVATE KEY" then parsed (P.parsePKCS1 blk.bytes)
  else if blk.type = "EC PRIVATE KEY" then parsed (P.parseEC blk.bytes)
  else .error (invalid "key" "unsupported private key type")

def acceptedKey : PublicKey → Except Err Unit
  | .rsa bits _ =>
    if bits < 2048 then .error (invalid "key" "RSA keys must have at least 2048 bits") else .ok ()
  | .ecdsa bits _ =>
    if bits ≠ 256 ∧ bits ≠ 384 then .error (invalid "key" "ECDSA keys must use P-256 or P-384")
    else .ok ()
  | _ => .error (invalid "key" "only RSA and ECDSA keys can be renewed through ACME")

/-- `parseImportKey`: the key of the text, when it is that of the leaf, as PKCS#8 PEM. -/
def parseImportKey (keyPEM : String) (leaf : X509) : Except Err String :=
  if keyPEM.utf8ByteSize > maxImportPEMBytes then
    .error (invalid "key" "private key input is too large")
  else match keyBlock P (keyPEM.utf8ByteSize + 1) keyPEM with
    | none => .error (invalid "key" "no private key found")
    | some (blk, text) =>
      if blk.type = "ENCRYPTED PRIVATE KEY" ∨ P.pemProcType text ≠ "" then
        .error (invalid "key"
          "encrypted private keys are not supported; export it without a passphrase")
      else do
        let key ← blockKey P blk
        acceptedKey key.pub
        if leaf.pub ≠ key.pub then
          .error (invalid "key" "the private key does not match the certificate")
        else encodeKey P key

/-- The part of `ImportACME` before its transaction. -/
def importPrepare (subj : Subjects) (input : ImportInput) : Svc Order := do
  let _ ← precheckACME subj input.issuerID
  let (leaf, der, chain) ← ofExcept (parseImportCerts P input.certPEM input.chainPEM)
  let domains ← ofExcept (importDomains P leaf)
  let keyPKCS8 ← ofExcept (parseImportKey P input.keyPEM leaf)
  let certID ← newID
  let keySealed ← sealKey P certID keyPKCS8
  let now ← Svc.now
  pure ⟨genericRow P subj.tenantID input.issuerID certID none domains (encodeCertPEM P der) chain
    leaf der keySealed input.autoRenew subj.actorID (userPtr subj), "", now⟩

def importACME (subj : Subjects) (input : ImportInput) : Svc CertificateView := do
  let o ← importPrepare P subj input
  let r ← attempt (storeCertificate o.row
    ⟨o.at_, subj.tenantID, o.row.id, .issued, o.row.issuerID, o.row.subject⟩ subj.userID)
  match r with
  | .error .conflict => fail (invalid "certificate" "this certificate is already in lcm")
  | .error e => fail e
  | .ok () =>
    emit (certEvent subj .certificateImported o.row.id)
    viewStored subj o.row.id

end Lcm.Issue
