import Lcm.Issue.Acme

/-!
# The certificate lifecycle

`certificates.go`: update, delete, renew, revoke, download. The reads marked
`Ev.getCertificate` fetch the row a call works on afterwards; between such a read and the
write that follows it, other calls may run.
-/

namespace Lcm.Issue

open Conc Db Svc Csr Ca Authz

variable (P : Platform)

/-- Read the row a call works on. -/
def loadCertificate (tenantID id : Id) : Svc IssuedCertificate :=
  repo (.getCertificate tenantID id) (Sql.getCertificate tenantID id)

def getCertificate (subj : Subjects) (id : Id) : Svc CertificateView := do
  check subj .certificate id .read
  let row ← fetch (Sql.getCertificate subj.tenantID id)
  let perms ← effective subj .certificate id
  certView row perms

/-- The row with the changes of an update. -/
def CertificateUpdate.apply (input : CertificateUpdate) (subj : Subjects)
    (row : IssuedCertificate) : IssuedCertificate :=
  { row with
    owner := if input.owner ≠ "" then input.owner else row.owner
    autoRenew := input.autoRenew.getD row.autoRenew
    updatedBy := userPtr subj }

/-- `UpdateCertificate`: the whole row is written back with the changes. -/
def updateCertificate (subj : Subjects) (id : Id) (input : CertificateUpdate) :
    Svc CertificateView := do
  check subj .certificate id .write
  let row ← loadCertificate subj.tenantID id
  let row := CertificateUpdate.apply input subj row
  repo (.updateCertificate row) (Sql.updateCertificate row)
  getCertificate subj id

def deleteCertificate (subj : Subjects) (id : Id) : Svc Unit := do
  check subj .certificate id .delete
  let _ ← fetch (Sql.getCertificate subj.tenantID id)
  repo (.deleteCertificate subj.tenantID id) do
    Sql.deleteCertificate subj.tenantID id
    dropResource subj.tenantID .certificate id
  emit (certEvent subj .certificateDeleted id)

/-- The signing request of a renewal: the same subject, names and lifetime. -/
def renewReq (old : IssuedCertificate) : MintReq where
  subject := old.subject
  csrPEM := ""
  dnsSans := old.sans
  validitySeconds := (old.notAfter - old.notBefore).tdiv second
  deliverKey := false
  retainKey := false
  event := .certificateRenewed
  logEvent := .renewed

/-- `renewCert`: a fresh certificate for the same identity, which supersedes the old one. -/
def renewCert (subj : Subjects) (old : IssuedCertificate) : Svc Bundle := do
  -- generic certificates renew by another ACME order, SVIDs from the CA
  if old.kind = some .generic then renewACME P subj old
  else match parseSPIFFEID P old.spiffeID with
    | none => fail (invalid "spiffe_id" "stored SPIFFE ID is invalid")
    | some sid =>
      let issuer ← repo .readIssuer (Sql.getIssuer subj.tenantID old.issuerID)
      let b ← mint P subj issuer sid (renewReq old)
      supersede subj.tenantID old b.certificate.id
      pure b

def renew (subj : Subjects) (certID : Id) : Svc Bundle := do
  check subj .certificate certID .use
  let old ← loadCertificate subj.tenantID certID
  renewCert P subj old

def renewSystemID : String := "spiffe://system/lcm/renew"

/-- `RenewSystem`: the renewal of the scheduler, without a permission check. -/
def renewSystem (tenantID certID : Id) : Svc Bundle := do
  let old ← loadCertificate tenantID certID
  renewCert P ⟨tenantID, "", ["admin"], renewSystemID⟩ old

/-- `Revoke`: the status and the revocation row are written together. -/
def revoke (subj : Subjects) (certID : Id) (reason : String) : Svc Unit := do
  check subj .certificate certID .delete
  let row ← fetch (Sql.getCertificate subj.tenantID certID)
  let reason := if reason = "" then "unspecified" else reason
  let now ← Svc.now
  repo (.revoke subj.tenantID certID) do
    Sql.setCertificateStatus subj.tenantID certID .revoked none
    let id ← Sql.newID
    Sql.insertRevocation
      ⟨id, subj.tenantID, certID, row.serial, reason, now, userPtr subj⟩
    Sql.insertCertLog [⟨now, subj.tenantID, certID, .revoked, row.issuerID, row.spiffeID⟩]
  emit (certEvent subj .certificateRevoked certID)

/-- `DownloadKey`: the stored key of a certificate whose key lcm retains. -/
def downloadKey (subj : Subjects) (certID : Id) : Svc String := do
  check subj .certificate certID .use
  let c ← loadCertificate subj.tenantID certID
  if c.keySealed.length = 0 then fail .noStoredKey
  else match P.envOpen c.keySealed (adCertKey c.id) with
    | none => fail .tampered
    | some clear => pure clear

/-- The trust bundle of an SVID's domain; empty for a generic certificate. -/
def trustBundle (tenantID : Id) (spiffeID : String) : Svc String :=
  match parseSPIFFEID P spiffeID with
  | some sid => bundle tenantID sid.trustDomain
  | none => pure ""

/-- `Download`: the certificate, its chain and the trust bundle. -/
def download (subj : Subjects) (certID : Id) : Svc Bundle := do
  check subj .certificate certID .read
  let row ← fetch (Sql.getCertificate subj.tenantID certID)
  let perms ← effective subj .certificate certID
  let bundlePEM ← trustBundle P subj.tenantID row.spiffeID
  let view ← certView row perms
  pure ⟨view, row.certPEM, row.chainPEM, bundlePEM, ""⟩

/-- `DownloadForService`: a platform module acts with an administrator's rights. -/
def downloadForService (tenantID : Id) (callerSPIFFE : String) (certID : Id)
    (includeKey : Bool) : Svc Bundle := do
  let subj : Subjects := ⟨tenantID, "", ["admin"], callerSPIFFE⟩
  let b ← download P subj certID
  if includeKey then
    let key ← downloadKey P subj certID
    pure { b with keyPEM := key }
  else pure b

def markKeyDelivered (subj : Subjects) (certID : Id) : Svc Unit := do
  check subj .certificate certID .use
  recordDelivery subj.tenantID certID

/-! ## What is quiet -/

theorem quiet_getCertificate (subj : Subjects) (id : Id) : Quiet (getCertificate subj id) := by
  refine only_bind (quiet_check _ _ _ _) fun _ => ?_
  refine only_bind (quiet_fetch (Sql.readOnly_getCertificate _ _)) fun row => ?_
  exact only_bind (quiet_effective _ _ _) fun perms => quiet_certView _ _

theorem quiet_trustBundle (t : Id) (s : String) : Quiet (trustBundle P t s) := by
  unfold trustBundle
  split
  · exact quiet_bundle _ _
  · exact only_pure _

theorem quiet_download (subj : Subjects) (id : Id) : Quiet (download P subj id) := by
  refine only_bind (quiet_check _ _ _ _) fun _ => ?_
  refine only_bind (quiet_fetch (Sql.readOnly_getCertificate _ _)) fun row => ?_
  refine only_bind (quiet_effective _ _ _) fun perms => ?_
  refine only_bind (quiet_trustBundle P _ _) fun b => ?_
  exact only_bind (quiet_certView _ _) fun v => only_pure _

end Lcm.Issue
