import Lcm.Issue.Mint

/-!
# Generic certificates through ACME

`acme.go` and `acmerequests.go`: an order for DNS names is placed with the issuer's ACME CA
and the result stored as a generic certificate, with its key sealed. As in `mint`, everything
before the transaction only looks. The CA's answers are choices of the world.
-/

namespace Lcm.Issue

open Conc Db Svc Csr Ca Authz

variable (P : Platform)

/-! ## The ACME client -/

def parseAccountKey (pem : String) : Option PrivateKey :=
  match P.pemDecode pem with
  | none => none
  | some (blk, _) =>
    match P.parsePKCS8 blk.bytes with
    | some k => some k
    | none => P.parseEC blk.bytes

def isLoopbackURL (u : String) : Bool :=
  contains u "127.0.0.1" || contains u "localhost" || contains u "[::1]"

/-- The sealed settings of an issuer; none are sealed when the column is NULL. -/
def issuerSettings (issuer : Issuer) : Except Err Settings :=
  if issuer.settingsSealed.length > 0 then
    match P.envOpen issuer.settingsSealed (adIssuer issuer.id) with
    | none => .error .tampered
    | some clear => P.decodeSettings clear
  else .ok .empty

/-- `acmeClientFor`, as far as it can fail. -/
def acmeClientFor (issuer : Issuer) : Except Err Unit := do
  let settings ← issuerSettings P issuer
  if (parseAccountKey P (settings.str "acme_account_key")).isNone then
    .error (invalid "acme_account_key" "issuer has no usable ACME account key")
  if !P.dnsProviderOK issuer.dnsProvider settings issuer.tenantID then
    .error (invalid "dns_provider" "DNS provider could not be built")
  let raw := settings.str "eab_hmac_key"
  if raw ≠ "" ∧ (P.decodeEABKey raw).isNone then
    .error (invalid "eab_hmac_key" "EAB HMAC key is not valid base64")
  -- `acme.New` refuses to skip verification against anything but a loopback directory
  if isLoopbackURL issuer.acmeDirectoryURL ∧ !P.isLoopbackDirectory issuer.acmeDirectoryURL then
    .error .acmeConfig
  .ok ()

/-- `Client.Register`: the CA's answer. -/
def register : Svc Unit := askExcept Env.register

/-- `Client.Obtain`: the CA's answer to the order. -/
def obtain (csrDER : Blob) (domains : List String) : Svc String := do
  let r ← ask Env.order fun r => .order csrDER domains r
  ofExcept r

/-- `splitChain`: the leaf, as PEM and parsed, and the rest of the chain. -/
def splitChain (chainPEM : String) : Except Err (String × String × X509 × Blob) :=
  match P.pemDecode chainPEM with
  | none => .error (invalid "acme" "ACME returned no certificate")
  | some (blk, rest) =>
    match P.parseCertificate blk.bytes with
    | .error e => .error e
    | .ok leaf =>
      .ok (P.pemEncode ⟨"CERTIFICATE", blk.bytes⟩, P.trimSpace rest, leaf, blk.bytes)

/-- The row of a generic certificate: an order's result, or an imported one. -/
def genericRow (tenantID issuerID certID : Id) (requestID : Option Id) (domains : List String)
    (leafPEM restPEM : String) (leaf : X509) (der keySealed : Blob) (autoRenew : Bool)
    (owner : String) (author : Option String) : IssuedCertificate where
  id := certID
  tenantID := tenantID
  issuerID := issuerID
  kind := some .generic
  requestID := requestID
  serial := toString leaf.serial
  spiffeID := ""
  subject := domains.headD ""
  sans := domains
  notBefore := leaf.notBefore
  notAfter := leaf.notAfter
  fingerprintSHA256 := fingerprint P der
  status := .active
  certPEM := leafPEM
  chainPEM := restPEM
  keySealed := keySealed
  keyDelivered := false
  autoRenew := autoRenew
  supersededBy := none
  owner := owner
  createdBy := author
  updatedBy := author
  createdAt := 0

/-- The read-back of a stored certificate, and its view. -/
def viewStored (subj : Subjects) (certID : Id) : Svc CertificateView := do
  let stored ← repo (.readBack subj.tenantID certID) (Sql.getCertificate subj.tenantID certID)
  let perms ← permissionsOn subj certID
  certView stored perms

/-! ## Orders -/

def precheckACME (subj : Subjects) (issuerID : Id) : Svc Issuer := do
  let r ← attempt (repo .readIssuer (Sql.getIssuer subj.tenantID issuerID))
  match r with
  | .error .notFound => fail (invalid "issuer_id" "issuer not found")
  | .error e => fail e
  | .ok issuer =>
    if issuer.type ≠ .acme then fail (invalid "issuer_id" "issuer is not an ACME issuer")
    else
      let r ← attempt (check subj .issuer issuer.id .use)
      match r with
      | .ok () => pure issuer
      | .error _ => fail .forbidden

/-- What an order has in hand before it stores anything. -/
structure Order where
  row : IssuedCertificate
  keyPEM : String
  at_ : Time

/-- The CSR of an order: the caller's, or one for a generated key. The key is returned when
asked for and sealed in any case. -/
def orderKey (certID : Id) (domains : List String) (csrPEM : String) (deliverKey : Bool) :
    Svc (Blob × String × Blob) :=
  if csrPEM ≠ "" then
    match parseCSR P csrPEM with
    | none => fail (invalid "csr" "certificate request rejected")
    | some parsed => pure (parsed.raw, "", [])
  else do
    let key ← generateKey
    let nonce ← ask Env.nonce fun _ => .look
    let csrDER ← ofExcept (P.createCertificateRequest nonce (domains.headD "") domains key)
    let pemKey ← ofExcept (encodeKey P key)
    let keySealed ← sealKey P certID pemKey
    pure (csrDER, if deliverKey then pemKey else "", keySealed)

/-- The part of `obtainACME` before its transaction. -/
def orderPrepare (subj : Subjects) (requestID : Option Id) (issuerID : Id)
    (domains : List String) (csrPEM : String) (deliverKey autoRenew : Bool) : Svc Order := do
  let domains ← ofExcept (validateACMEDomains P domains)
  let issuer ← precheckACME subj issuerID
  ofExcept (acmeClientFor P issuer)
  register
  let certID ← newID
  let (csrDER, keyPEM, keySealed) ← orderKey P certID domains csrPEM deliverKey
  let chainPEM ← obtain csrDER domains
  let (leafPEM, restPEM, leaf, der) ← ofExcept (splitChain P chainPEM)
  let now ← Svc.now
  pure ⟨genericRow P subj.tenantID issuer.id certID requestID domains leafPEM restPEM leaf der
    keySealed autoRenew subj.actorID (userPtr subj), keyPEM, now⟩

def obtainACME (subj : Subjects) (requestID : Option Id) (issuerID : Id)
    (domains : List String) (csrPEM : String) (deliverKey autoRenew : Bool) : Svc Bundle := do
  let o ← orderPrepare P subj requestID issuerID domains csrPEM deliverKey autoRenew
  storeCertificate o.row
    ⟨o.at_, subj.tenantID, o.row.id, .issued, o.row.issuerID, o.row.subject⟩ subj.userID
  emit (certEvent subj .certificateIssued o.row.id)
  let view ← viewStored subj o.row.id
  pure ⟨view, o.row.certPEM, o.row.chainPEM, "", o.keyPEM⟩

/-- `ObtainACMEFor`: a failed order leaves an audit event. -/
def obtainACMEFor (subj : Subjects) (requestID : Option Id) (issuerID : Id)
    (domains : List String) (csrPEM : String) (deliverKey autoRenew : Bool) : Svc Bundle := do
  let r ← attempt (obtainACME P subj requestID issuerID domains csrPEM deliverKey autoRenew)
  match r with
  | .ok b => pure b
  | .error e =>
    if e ≠ .forbidden then do
      emit ⟨subj.tenantID, .certificateIssued, subj.actorKind, subj.actorID, none, .failed,
        failReason e⟩
      fail e
    else fail e

/-- `FinishACME`: end the request of an order. -/
def finishACME (subj : Subjects) (requestID certificateID : Id) (orderErr : Option Err) :
    Svc Unit :=
  match orderErr with
  | some e =>
    repo (.completeRequest subj.tenantID requestID .failed)
      (Sql.completeRequest subj.tenantID requestID .failed none (some (failReason e)))
  | none =>
    repo (.completeRequest subj.tenantID requestID .issued)
      (Sql.completeRequest subj.tenantID requestID .issued (some certificateID) none)

/-! ## Renewal -/

/-- The stored key of a certificate, if it opens and parses. -/
def storedKey (old : IssuedCertificate) : Option PrivateKey :=
  if old.keySealed.length > 0 then
    match P.envOpen old.keySealed (adCertKey old.id) with
    | some clear => parseAccountKey P clear
    | none => none
  else none

/-- The key of an ACME renewal: the stored one when there is one, else a fresh one. -/
def renewKey (old : IssuedCertificate) : Svc PrivateKey :=
  match storedKey P old with
  | some k => pure k
  | none => generateKey

/-- The names an ACME renewal is for. -/
def renewDomains (old : IssuedCertificate) : Except Err (List String) :=
  match normaliseDomains P old.sans with
  | [] =>
    if old.subject = "" then .error (invalid "domains" "certificate has no domains to renew")
    else .ok [old.subject]
  | d :: ds => .ok (d :: ds)

/-- The part of `renewACME` before its transaction. -/
def renewPrepare (subj : Subjects) (old : IssuedCertificate) : Svc Order := do
  let domains ← ofExcept (renewDomains P old)
  let issuer ← repo .readIssuer (Sql.getIssuer subj.tenantID old.issuerID)
  ofExcept (acmeClientFor P issuer)
  register
  let certID ← newID
  let key ← renewKey P old
  let nonce ← ask Env.nonce fun _ => .look
  let csrDER ← ofExcept (P.createCertificateRequest nonce (domains.headD "") domains key)
  let pemKey ← ofExcept (encodeKey P key)
  let keySealed ← sealKey P certID pemKey
  let chainPEM ← obtain csrDER domains
  let (leafPEM, restPEM, leaf, der) ← ofExcept (splitChain P chainPEM)
  let now ← Svc.now
  pure ⟨genericRow P subj.tenantID issuer.id certID none domains leafPEM restPEM leaf der
    keySealed old.autoRenew old.owner (userPtr subj), "", now⟩

/-- Who is granted a renewed generic certificate: its owner, unless that is a service. -/
def renewGrantee (old : IssuedCertificate) : String :=
  if old.owner ≠ "" ∧ !hasPrefix old.owner "spiffe://" then old.owner else ""

/-- The repository call that links a certificate to its successor; it also writes back the
status of the row as it was read. -/
def supersede (tenantID : Id) (old : IssuedCertificate) (newID : Id) : Svc Unit :=
  repo (.setCertificateStatus tenantID old.id old.status (some newID))
    (Sql.setCertificateStatus tenantID old.id old.status (some newID))

def renewACME (subj : Subjects) (old : IssuedCertificate) : Svc Bundle := do
  let o ← renewPrepare P subj old
  storeCertificate o.row
    ⟨o.at_, subj.tenantID, o.row.id, .renewed, o.row.issuerID, o.row.subject⟩ (renewGrantee old)
  supersede subj.tenantID old o.row.id
  emit (certEvent subj .certificateRenewed o.row.id)
  let view ← viewStored subj o.row.id
  pure ⟨view, o.row.certPEM, o.row.chainPEM, "", ""⟩

/-! ## What is quiet -/

theorem quiet_precheckACME (subj : Subjects) (id : Id) : Quiet (precheckACME subj id) := by
  refine only_bind (only_attempt (quiet_readIssuer (Sql.readOnly_getIssuer _ _))) fun r => ?_
  split
  · exact only_fail _
  · exact only_fail _
  refine only_ite (only_fail _) ?_
  refine only_bind (only_attempt (quiet_check _ _ _ _)) fun r => ?_
  split
  · exact only_pure _
  · exact only_fail _

theorem looks_orderKey (id : Id) (domains : List String) (csr : String) (d : Bool) :
    Only Ev.Looks (orderKey P id domains csr d) := by
  refine only_ite ?_ ?_
  · split
    · exact only_fail _
    · exact only_pure _
  refine only_bind looks_generateKey fun key => ?_
  refine only_bind (only_ask fun _ => trivial) fun nonce => ?_
  refine only_bind (only_ofExcept _) fun der => ?_
  refine only_bind (only_ofExcept _) fun pem => ?_
  refine only_bind ((quiet_sealKey P id pem).mono fun _ => Ev.Quiet.looks) fun blob => ?_
  exact only_pure _

theorem looks_obtain (csrDER : Blob) (domains : List String) :
    Only Ev.Looks (obtain csrDER domains) :=
  only_bind (only_ask fun _ => trivial) fun _ => only_ofExcept _

theorem looks_renewKey (old : IssuedCertificate) : Only Ev.Looks (renewKey P old) := by
  unfold renewKey
  split
  · exact only_pure _
  · exact looks_generateKey

end Lcm.Issue
