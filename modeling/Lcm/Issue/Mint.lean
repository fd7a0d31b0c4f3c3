import Lcm.Authz
import Lcm.Ca
import Lcm.Issue.Domains

/-!
# Minting

`issue.go`: the issuer of a request is resolved, the caller's entitlement checked, and a leaf
minted from the issuer's CA. `mint` is cut at its transaction: `mintPrepare` does everything
before it and only looks; `storeCertificate` is the transaction itself.
-/

namespace Lcm.Issue

open Conc Db Svc Csr Ca Authz

variable (P : Platform)

/-! ## Views -/

/-- The fixed side of the expiring window: 30 days. -/
def expiringWindow : Duration := 30 * 24 * 3600 * second

/-- `deriveStatus`: the status shown at `now`. -/
def deriveStatus (c : IssuedCertificate) (now : Time) : CertStatus :=
  if c.status = .revoked then .revoked
  else if c.notAfter ≤ now then .expired
  else
    let half := (c.notAfter - c.notBefore).tdiv 2
    let window := if half < expiringWindow then half else expiringWindow
    if c.notAfter ≤ now + window then .expiring else .active

/-- `certView`: the row with the derived status and the caller's permissions. -/
def certView (c : IssuedCertificate) (p : Permissions) : Svc CertificateView := do
  let now ← Svc.now
  pure {
    id := c.id, issuerID := c.issuerID, kind := c.kind, serial := c.serial,
    spiffeID := c.spiffeID, subject := c.subject, sans := c.sans, notBefore := c.notBefore,
    notAfter := c.notAfter, fingerprintSHA256 := c.fingerprintSHA256,
    status := deriveStatus c now, keyDelivered := c.keyDelivered,
    hasKey := decide (0 < c.keySealed.length), autoRenew := c.autoRenew,
    supersededBy := c.supersededBy, owner := c.owner, createdAt := c.createdAt,
    permissions := p }

/-- `Effective` with its error ignored: the permissions are then empty. -/
def permissionsOn (subj : Subjects) (certID : Id) : Svc Permissions := do
  let r ← attempt (effective subj .certificate certID)
  match r with
  | .ok p => pure p
  | .error _ => pure noPermissions

/-- `userPtr`: the caller's user id, or nothing for a service. -/
def userPtr (s : Subjects) : Option String := if s.userID = "" then none else some s.userID

/-! ## Resolving the issuer -/

def resolveIssuer (subj : Subjects) (input : IssueInput) : Svc (Issuer × SPIFFEID) := do
  match parseSPIFFEID P input.spiffeID with
  | none => fail (invalid "spiffe_id" "invalid SPIFFE ID")
  | some sid =>
    let r ← attempt (match input.issuerID with
      | some id => repo .readIssuer (Sql.getIssuer subj.tenantID id)
      | none => repo .readIssuer (Sql.defaultIssuer subj.tenantID sid.trustDomain))
    match r with
    | .error .notFound => fail (invalid "issuer_id" "issuer not found")
    | .error e => fail e
    | .ok issuer =>
      if issuer.trustDomain ≠ sid.trustDomain then
        fail (invalid "spiffe_id" "trust domain does not match the issuer")
      else pure (issuer, sid)

/-- `entitled`: use on the issuer, or a service asking for its own identity. -/
def entitled (subj : Subjects) (issuer : Issuer) (sid : SPIFFEID) : Svc Unit := do
  let r ← attempt (check subj .issuer issuer.id .use)
  match r with
  | .ok () => pure ()
  | .error e =>
    if e ≠ .forbidden ∧ e ≠ .resourceNotFound then fail e
    else if subj.service ≠ "" then
      match parseSPIFFEID P subj.service with
      | some own =>
        if own.trustDomain = sid.trustDomain ∧ own.path = sid.path then pure ()
        else fail .forbidden
      | none => fail .forbidden
    else fail .forbidden

/-! ## Validity -/

def minValiditySeconds : Int := 60
def defaultValiditySeconds : Int := 90 * 24 * 3600
def maxValiditySeconds : Int := 365 * 24 * 3600

def clampValidity (seconds : Int) : Duration :=
  let seconds := if seconds ≤ 0 then defaultValiditySeconds else seconds
  let seconds := if seconds < minValiditySeconds then minValiditySeconds else seconds
  let seconds := if seconds > maxValiditySeconds then maxValiditySeconds else seconds
  seconds * second

theorem clampValidity_le (seconds : Int) : clampValidity seconds ≤ maxValiditySeconds * second := by
  refine Int.mul_le_mul_of_nonneg_right ?_ (by decide)
  split <;> omega

/-! ## Keys -/

def generateKey : Svc PrivateKey := do
  let k ← ask Env.key .genKey
  match k with
  | some k => pure k
  | none => fail (.external "crypto: key generation failed")

/-- The PKCS#8 PEM of a key. -/
def encodeKey (key : PrivateKey) : Except Err String :=
  (P.marshalPKCS8 key).map fun der => P.pemEncode ⟨"PRIVATE KEY", der⟩

/-- Seal a certificate's key under the certificate's id. -/
def sealKey (certID : Id) (pemKey : String) : Svc Blob :=
  askExcept fun e => P.envSeal e.nonce pemKey (adCertKey certID)

/-- The resolved inputs of one signing operation. -/
structure MintReq where
  subject : String
  csrPEM : String
  dnsSans : List String
  validitySeconds : Int
  deliverKey : Bool
  retainKey : Bool
  event : AuditType
  logEvent : LogEvent

/-- The key side of a certificate: its public key, the key to return (or nothing), and the
sealed key to store (or nothing). -/
structure KeyMaterial where
  pub : PublicKey
  keyPEM : String
  keySealed : Blob

/-- The key of a new certificate: the one of the CSR, or a generated one. -/
def mintKey (certID : Id) (req : MintReq) : Svc KeyMaterial :=
  if req.csrPEM ≠ "" then
    match parseCSR P req.csrPEM with
    | none => fail (invalid "csr" "certificate request rejected")
    | some parsed =>
      if !validateSANs P req.dnsSans parsed.dnsNames then
        fail (invalid "dns_sans" "CSR SANs are not authorised")
      else pure ⟨parsed.pub, "", []⟩
  else do
    let priv ← generateKey
    let pemKey ← ofExcept (encodeKey P priv)
    let keySealed ← sealKey P certID pemKey
    pure ⟨priv.pub, if req.deliverKey then pemKey else "", keySealed⟩

/-! ## Signing -/

/-- What `mint` has in hand before it stores anything. -/
structure Prepared where
  row : IssuedCertificate
  keyPEM : String
  bundlePEM : String

def mintRow (subj : Subjects) (issuer : Issuer) (sid : SPIFFEID) (req : MintReq) (caRow : CA)
    (certID : Id) (keySealed : Blob) (now : Time) (serial : Nat) (der : Blob) :
    IssuedCertificate where
  id := certID
  tenantID := subj.tenantID
  issuerID := issuer.id
  kind := none
  requestID := none
  serial := toString serial
  spiffeID := sid.string
  subject := if req.subject = "" then sid.string else req.subject
  sans := req.dnsSans
  notBefore := now
  notAfter := now + clampValidity req.validitySeconds
  fingerprintSHA256 := fingerprint P der
  status := .active
  certPEM := encodeCertPEM P der
  chainPEM := caRow.certPEM
  keySealed := keySealed
  keyDelivered := false
  autoRenew := true
  supersededBy := none
  owner := subj.actorID
  createdBy := userPtr subj
  updatedBy := userPtr subj
  createdAt := 0

/-- The template of a minted certificate. -/
def mintLeaf (sid : SPIFFEID) (req : MintReq) (uri : Url) (pub : PublicKey) (now : Time)
    (serial : Nat) : X509 where
  serial := serial
  commonName := if req.subject = "" then sid.string else req.subject
  notBefore := now
  notAfter := now + clampValidity req.validitySeconds
  dnsNames := req.dnsSans
  uris := [uri.text]
  otherNames := false
  isCA := false
  pub := pub
  issuerDN := ""

/-- The part of `mint` before its transaction. -/
def mintPrepare (subj : Subjects) (issuer : Issuer) (sid : SPIFFEID) (req : MintReq) :
    Svc Prepared := do
  match issuer.type, issuer.caID with
  | .selfSigned, some caID =>
    let caRow ← fetch (Sql.getCA subj.tenantID caID)
    let (key, caCert) ← ofExcept (signer P caRow)
    let certID ← newID
    let km ← mintKey P certID req
    let now ← Svc.now
    let serial ← randomSerial
    match P.urlParse sid.string with
    | none => fail (invalid "spiffe_id" "invalid SPIFFE ID")
    | some uri =>
      let leaf := mintLeaf sid req uri km.pub now serial
      let nonce ← ask Env.nonce fun _ => .sign leaf caCert
      let der ← ofExcept (P.createCertificate nonce leaf caCert km.pub key)
      let bundlePEM ← bundle subj.tenantID sid.trustDomain
      pure ⟨mintRow P subj issuer sid req caRow certID km.keySealed now serial der, km.keyPEM,
        bundlePEM⟩
  | _, _ => fail (invalid "issuer_id" "issuer cannot sign certificates")

/-- The transaction that stores a certificate: the row, its log entry and its owner grant. -/
def storeCertificate (row : IssuedCertificate) (log : CertLogRow) (grantee : String) : Svc Unit :=
  repo (.insertCertificate row) do
    Sql.insertCertificate row
    Sql.insertCertLog [log]
    grantOwner row.tenantID .certificate row.id grantee

/-- The repository call that records a handed-out key. -/
def recordDelivery (tenantID certID : Id) : Svc Unit :=
  repo (.markKeyDelivered tenantID certID) (Sql.markKeyDelivered tenantID certID)

def certEvent (subj : Subjects) (type : AuditType) (certID : Id) : AuditEvent :=
  ⟨subj.tenantID, type, subj.actorKind, subj.actorID, some certID, .ok, ""⟩

/-- Deliver a generated key exactly once: unless it is retained, the row is stripped of it
before it is returned. -/
def deliver (keyPEM : String) (retainKey : Bool) (row : IssuedCertificate) :
    Svc IssuedCertificate :=
  if keyPEM ≠ "" ∧ !retainKey then do
    recordDelivery row.tenantID row.id
    pure row.delivered
  else pure row

def mint (subj : Subjects) (issuer : Issuer) (sid : SPIFFEID) (req : MintReq) : Svc Bundle := do
  let p ← mintPrepare P subj issuer sid req
  storeCertificate p.row
    ⟨p.row.notBefore, subj.tenantID, p.row.id, req.logEvent, issuer.id, sid.string⟩ subj.userID
  emit (certEvent subj req.event p.row.id)
  let row ← deliver p.keyPEM req.retainKey p.row
  let perms ← permissionsOn subj p.row.id
  let view ← certView row perms
  pure ⟨view, p.row.certPEM, p.row.chainPEM, p.bundlePEM, p.keyPEM⟩

/-- The signing request of `Issue`. -/
def issueReq (input : IssueInput) : MintReq :=
  ⟨input.subject, input.csrPEM, input.dnsSans, input.validitySeconds, input.deliverKey,
    input.retainKey, .certificateIssued, .issued⟩

def issue (subj : Subjects) (input : IssueInput) : Svc Bundle := do
  let (issuer, sid) ← resolveIssuer P subj input
  entitled P subj issuer sid
  mint P subj issuer sid (issueReq input)

/-! ## What is quiet -/

theorem quiet_certView (c : IssuedCertificate) (p : Permissions) : Quiet (certView c p) :=
  only_bind quiet_now fun _ => only_pure _

theorem quiet_permissionsOn (subj : Subjects) (id : Id) : Quiet (permissionsOn subj id) := by
  refine only_bind (only_attempt (quiet_effective _ _ _)) fun r => ?_
  cases r with
  | ok p => exact only_pure p
  | error e => exact only_pure _

theorem returns_certView (c : IssuedCertificate) (p : Permissions) :
    Returns (fun v => v.id = c.id) (certView c p) :=
  returns_bind (R := fun _ => True) (returns_ask fun _ => trivial) fun _ _ => returns_pure rfl

theorem returns_permissionsOn (subj : Subjects) (id : Id) :
    Returns (fun _ => True) (permissionsOn subj id) := by
  refine returns_bind (returns_attempt _) fun r _ => ?_
  cases r with
  | ok p | error e => exact returns_pure trivial

theorem quiet_resolveIssuer (subj : Subjects) (input : IssueInput) :
    Quiet (resolveIssuer P subj input) := by
  unfold resolveIssuer
  split
  · exact only_fail _
  refine only_bind (only_attempt ?_) fun r => ?_
  · split
    · exact quiet_readIssuer (Sql.readOnly_getIssuer _ _)
    · exact quiet_readIssuer (Sql.readOnly_defaultIssuer _ _)
  split
  · exact only_fail _
  · exact only_fail _
  · exact only_ite (only_fail _) (only_pure _)

theorem quiet_entitled (subj : Subjects) (issuer : Issuer) (sid : SPIFFEID) :
    Quiet (entitled P subj issuer sid) := by
  refine only_bind (only_attempt (quiet_check _ _ _ _)) fun r => ?_
  split
  · exact only_pure _
  refine only_ite (only_fail _) (only_ite ?_ (only_fail _))
  split
  · exact only_ite (only_pure _) (only_fail _)
  · exact only_fail _

theorem looks_generateKey : Only Ev.Looks generateKey := by
  refine only_bind (only_ask fun _ => trivial) fun k => ?_
  cases k with
  | some k => exact only_pure k
  | none => exact only_fail _

theorem quiet_sealKey (id : Id) (pem : String) : Quiet (sealKey P id pem) := quiet_askExcept _

theorem looks_mintKey (id : Id) (req : MintReq) : Only Ev.Looks (mintKey P id req) := by
  refine only_ite ?_ ?_
  · split
    · exact only_fail _
    · exact only_ite (only_fail _) (only_pure _)
  refine only_bind looks_generateKey fun priv => ?_
  refine only_bind (only_ofExcept _) fun pem => ?_
  refine only_bind ((quiet_sealKey P id pem).mono fun _ => Ev.Quiet.looks) fun blob => ?_
  exact only_pure _

theorem silent_mintPrepare (subj : Subjects) (issuer : Issuer) (sid : SPIFFEID) (req : MintReq) :
    Only Ev.Silent (mintPrepare P subj issuer sid req) := by
  have quiet {α : Type} {m : Svc α} (h : Quiet m) : Only Ev.Silent m :=
    h.mono fun _ => Ev.Quiet.silent
  have looks {α : Type} {m : Svc α} (h : Only Ev.Looks m) : Only Ev.Silent m :=
    h.mono fun _ => Ev.Looks.silent
  unfold mintPrepare
  split
  · refine only_bind (quiet (quiet_fetch (Sql.readOnly_getCA _ _))) fun caRow => ?_
    refine only_bind (only_ofExcept _) fun sc => ?_
    refine only_bind (looks looks_newID) fun id => ?_
    refine only_bind (looks (looks_mintKey P id req)) fun km => ?_
    refine only_bind (quiet quiet_now) fun now => ?_
    refine only_bind (quiet quiet_randomSerial) fun serial => ?_
    split
    · exact only_fail _
    refine only_bind ((signs_ask _ _ _).mono fun _ => Ev.Signs.silent) fun nonce => ?_
    refine only_bind (only_ofExcept _) fun der => ?_
    exact only_bind (quiet (quiet_bundle _ _)) fun b => only_pure _
  · exact only_fail _

end Lcm.Issue
