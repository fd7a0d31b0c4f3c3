import Lcm.Issue.Acme

/-!
# Backup and restore

`backup.go`: `Export` reads a tenant's issuers, certificates, grants and secrets into a
document, and `Import` writes a document into a tenant, in one transaction. Issuers and secrets
are matched by name and certificates by serial; what the tenant already has is skipped or
overwritten. A certificate is written with the status of the document, and neither direction
looks at the revocations.
-/

namespace Lcm.Transfer

open Db Svc Ca

variable (P : Platform)

def maxIssuers : Nat := 1000
def maxCerts : Nat := 100000
def maxSecrets : Nat := 1000
def maxGrants : Nat := 100000
def pageSize : Nat := 1000

/-- `issuerSecretFields`: the issuer settings that hold credential material. -/
def issuerSecretFields : List String :=
  ["acme_account_key", "dns_credential", "eab_hmac_key", "api_token", "secret_access_key",
    "service_account_key", "auth_token", "password", "api_key", "key"]

/-! ## Settings under seal -/

/-- `sealed.Encode`: at most 8 KiB. -/
def encodeSettings (s : Settings) : Except Err String := do
  let b ← P.marshalSettings s
  if b.utf8ByteSize > 8192 then .error .tooLarge else .ok b

theorem encodeSettings_ok {P : Platform} {s : Settings} {text : String} :
    encodeSettings P s = .ok text ↔ P.marshalSettings s = .ok text ∧ text.utf8ByteSize ≤ 8192 := by
  unfold encodeSettings
  rw [bind_eq_ok]
  constructor
  · rintro ⟨b, hb, h⟩
    split at h
    · cases h
    rename_i hsize
    cases h
    exact ⟨hb, Nat.le_of_not_lt hsize⟩
  · rintro ⟨hb, hsize⟩
    exact ⟨text, hb, if_neg (Nat.not_lt.2 hsize)⟩

/-- What has been sealed can be opened, and decoding gives back the settings that were encoded,
if they are not too large. -/
structure LawfulSettings (P : Platform) : Prop where
  open_seal : ∀ nonce clear ad blob, P.envSeal nonce clear ad = .ok blob →
    0 < blob.length ∧ P.envOpen blob ad = some clear
  decode_marshal : ∀ settings text, P.marshalSettings settings = .ok text →
    text.utf8ByteSize ≤ 8192 →
    ∃ decoded, P.decodeSettings text = .ok decoded ∧ ∀ k, decoded.get? k = settings.get? k

def openIssuer (row : Issuer) : Except Err Settings := Issue.issuerSettings P row

/-- `openSecret`: the JSON text of a secret. -/
def openSecret (row : TenantSecret) : Except Err String :=
  match P.envOpen row.valueSealed (adSecret row.id) with
  | none => .error .tampered
  | some clear => do
    let value ← P.decodeSettings clear
    P.marshalSettings value

/-- `sealIssuer`: the settings with the credentials over them, under seal and redacted. -/
def sealIssuer (nonce : Nat) (id : Id) (settings creds : Settings) : Except Err (Blob × String) :=
  match encodeSettings P (settings.overlay creds) with
  | .error _ => .error (.invalidDocument "issuer settings")
  | .ok clear => do
    let blob ← P.envSeal nonce clear (adIssuer id)
    let shown ← encodeSettings P ((settings.overlay creds).redact issuerSecretFields)
    .ok (blob, shown)

def sealSecretValue (nonce : Nat) (id : Id) (value : String) : Except Err Blob :=
  match P.decodeSettings value with
  | .error _ => .error (.invalidDocument "secret value")
  | .ok settings =>
    match encodeSettings P settings with
    | .error _ => .error (.invalidDocument "secret value")
    | .ok clear => P.envSeal nonce clear (adSecret id)

/-! ## Listing every certificate -/

/-- `pageCertificates`: page after page until one is short, or `maxCerts` rows have been read.
Every page but the last adds `pageSize` rows, so the given number of pages is enough. -/
def pageCertificates {m : Type → Type} [Monad m]
    (list : CertificateFilter → m (List IssuedCertificate)) :
    Nat → CertificateFilter → List IssuedCertificate → m (List IssuedCertificate)
  | 0, _, out => pure out
  | pages + 1, f, out => do
    let batch ← list f
    let out := out ++ batch
    if batch.length < f.limit || out.length ≥ maxCerts then pure out
    else
      let f := match batch.getLast? with
        | some last => { f with cursorTS := last.createdAt, cursorID := some last.id }
        | none => f
      pageCertificates list pages f out

def firstPage : CertificateFilter := ⟨none, "", none, 0, none, pageSize⟩

def listAllCertificatesTx (tenantID : Id) : Sql (List IssuedCertificate) :=
  pageCertificates (Sql.listCertificates tenantID) (maxCerts / pageSize) firstPage []

def listAllCertificates (tenantID : Id) : Svc (List IssuedCertificate) :=
  pageCertificates (fun f => fetch (Sql.listCertificates tenantID f)) (maxCerts / pageSize)
    firstPage []

/-! ## Import -/

/-- Ids by name or by serial; the entry in front counts. -/
abbrev Index := List (String × Id)

/-- The author columns of what an import writes. -/
def actorPtr (subj : Subjects) : Option String :=
  if subj.actorID ≠ "" then some subj.actorID else none

/-- Go on after an insert: a conflict is no error. -/
def unlessConflict {α : Type} (created skipped : α) : Except Err Unit → Sql α
  | .ok _ => pure created
  | .error e => if e.isConflict then pure skipped else Tx.fail e

/-- Insert a row; where it conflicts with a stored one, it is skipped. -/
def insertOr {α : Type} (insert : Sql Unit) (created skipped : α) : Sql α := do
  unlessConflict created skipped (← insert.attempt)

/-- The credentials an overwrite stores: those of the document, or else the stored ones. -/
def keptCredentials (di : DocIssuer) (row : Issuer) : Settings :=
  if di.credentials.fields.length = 0 then
    match openIssuer P row with
    | .ok full => full.onlyFields issuerSecretFields
    | .error _ => di.credentials
  else di.credentials

/-- One issuer of `importIssuers`. -/
def importIssuer (subj : Subjects) (mode : String) (acc : Index × Report) (di : DocIssuer) :
    Sql (Index × Report) :=
  match acc.1.lookup (P.toLower di.name) with
  | some existingID =>
    if mode = "skip" then
      pure (acc.1, { acc.2 with issuersSkipped := acc.2.issuersSkipped + 1 })
    else do
      let row ← Sql.getIssuer subj.tenantID existingID
      let nonce ← Sql.newNonce
      let (blob, shown) ←
        Tx.ofExcept (sealIssuer P nonce existingID di.settings (keptCredentials P di row))
      Sql.updateIssuer P { row with
        type := di.type, trustDomain := di.trustDomain, isDefault := di.isDefault,
        settingsSealed := blob, settingsPublic := shown, updatedBy := actorPtr subj }
      pure (acc.1, { acc.2 with issuersCreated := acc.2.issuersCreated + 1 })
  | none => do
    let id ← Sql.newID
    let nonce ← Sql.newNonce
    let (blob, shown) ← Tx.ofExcept (sealIssuer P nonce id di.settings di.credentials)
    insertOr
      (Sql.insertIssuer P ⟨id, subj.tenantID, di.name, di.type, di.trustDomain, di.isDefault, none,
        "", "", "", shown, blob, true, actorPtr subj, actorPtr subj⟩)
      ((P.toLower di.name, id) :: acc.1,
        { acc.2 with issuersCreated := acc.2.issuersCreated + 1 })
      (acc.1, { acc.2 with issuersSkipped := acc.2.issuersSkipped + 1 })

/-- `importIssuers`: the ids of the tenant's issuers by name. -/
def importIssuers (subj : Subjects) (doc : Document) (mode : String) (rep : Report) :
    Sql (Index × Report) := do
  let existing ← Sql.listIssuers P subj.tenantID "" maxIssuers
  let idByName := existing.foldl (fun idx i => (P.toLower i.name, i.id) :: idx) []
  doc.issuers.foldlM (importIssuer P subj mode) (idByName, rep)

/-- The row of a certificate the tenant does not have yet. Its kind is left to the store. -/
def importedRow (subj : Subjects) (issuerID id : Id) (dc : DocCertificate) : IssuedCertificate where
  id := id
  tenantID := subj.tenantID
  issuerID := issuerID
  kind := none
  requestID := none
  serial := dc.serial
  spiffeID := dc.spiffeID
  subject := dc.subject
  sans := dc.sans
  notBefore := dc.notBefore
  notAfter := dc.notAfter
  fingerprintSHA256 := dc.fingerprintSHA256
  status := dc.status
  certPEM := dc.certPEM
  chainPEM := dc.chainPEM
  keySealed := []
  keyDelivered := false
  autoRenew := false
  supersededBy := none
  owner := if dc.spiffeID = "" then subj.actorID else dc.spiffeID
  createdBy := actorPtr subj
  updatedBy := actorPtr subj
  createdAt := 0

/-- A certificate that is left out. -/
def Report.skipCertificate (rep : Report) : Report :=
  { rep with certificatesSkipped := rep.certificatesSkipped + 1 }

def Report.countCertificate (rep : Report) : Report :=
  { rep with certificatesCreated := rep.certificatesCreated + 1 }

/-- Write a certificate of the document over the stored one: its status and its chain. -/
def overwriteCertificate (subj : Subjects) (existingID : Id) (dc : DocCertificate) : Sql Unit := do
  let row ← Sql.getCertificate subj.tenantID existingID
  Sql.updateCertificate
    { row with status := dc.status, chainPEM := dc.chainPEM, updatedBy := actorPtr subj }

/-- One certificate of `importCertificates`. -/
def importCertificate (subj : Subjects) (mode : String) (issuerIDByName : Index)
    (acc : Index × Report) (dc : DocCertificate) : Sql (Index × Report) :=
  match issuerIDByName.lookup (P.toLower dc.issuer) with
  | none => pure (acc.1, acc.2.skipCertificate)
  | some issuerID =>
    match acc.1.lookup dc.serial with
    | some existingID =>
      if mode = "skip" then pure (acc.1, acc.2.skipCertificate)
      else do
        overwriteCertificate subj existingID dc
        pure (acc.1, acc.2.countCertificate)
    | none => do
      let id ← Sql.newID
      insertOr (Sql.insertCertificate (importedRow subj issuerID id dc))
        ((dc.serial, id) :: acc.1, acc.2.countCertificate) (acc.1, acc.2.skipCertificate)

/-- `importCertificates`: the ids of the tenant's certificates by serial. -/
def importCertificates (subj : Subjects) (doc : Document) (mode : String) (issuerIDByName : Index)
    (rep : Report) : Sql (Index × Report) := do
  let existing ← listAllCertificatesTx subj.tenantID
  let idBySerial := existing.foldl (fun idx c => (c.serial, c.id) :: idx) []
  doc.certificates.foldlM (importCertificate P subj mode issuerIDByName) (idBySerial, rep)

/-- The resource a grant of the document is about, if it is part of the import. -/
def resourceID (issuerIDByName certIDBySerial : Index) (dp : DocPermission) : Option Id :=
  match dp.resourceType with
  | .issuer => issuerIDByName.lookup (P.toLower dp.resourceRef)
  | .certificate => certIDBySerial.lookup dp.resourceRef

/-- One grant of `importGrants`. -/
def importGrant (subj : Subjects) (issuerIDByName certIDBySerial : Index) (rep : Report)
    (dp : DocPermission) : Sql Report :=
  match resourceID P issuerIDByName certIDBySerial dp with
  | none => pure rep
  | some rid => do
    let id ← Sql.newID
    let _ ← Sql.upsertGrant
      { id, tenantID := subj.tenantID, resourceType := dp.resourceType, resourceID := rid,
        subjectType := dp.subjectType, subjectID := dp.subjectID, relation := dp.relation,
        grantedBy := actorPtr subj, grantedAt := 0, expiresAt := dp.expiresAt }
    pure { rep with grantsCreated := rep.grantsCreated + 1 }

def importGrants (subj : Subjects) (doc : Document) (issuerIDByName certIDBySerial : Index)
    (rep : Report) : Sql Report :=
  doc.permissions.foldlM (importGrant P subj issuerIDByName certIDBySerial) rep

/-- A secret whose name has been looked up. -/
def importSecretOver (subj : Subjects) (mode : String) (rep : Report) (ds : DocSecret) :
    Except Err TenantSecret → Sql Report
  | .ok existing =>
    if mode = "skip" then pure rep
    else do
      let nonce ← Sql.newNonce
      let blob ← Tx.ofExcept (sealSecretValue P nonce existing.id ds.value)
      Sql.updateSecret P
        { existing with kind := ds.kind, valueSealed := blob, updatedBy := actorPtr subj }
      pure rep
  | .error .notFound => do
    let id ← Sql.newID
    let nonce ← Sql.newNonce
    let blob ← Tx.ofExcept (sealSecretValue P nonce id ds.value)
    insertOr
      (Sql.insertSecret P
        ⟨id, subj.tenantID, ds.name, ds.kind, blob, actorPtr subj, actorPtr subj⟩)
      { rep with secretsCreated := rep.secretsCreated + 1 } rep
  | .error e => Tx.fail e

/-- One secret of `importSecrets`. -/
def importSecret (subj : Subjects) (mode : String) (rep : Report) (ds : DocSecret) :
    Sql Report := do
  importSecretOver P subj mode rep ds (← (Sql.secretByName P subj.tenantID ds.name).attempt)

def importSecrets (subj : Subjects) (doc : Document) (mode : String) (rep : Report) : Sql Report :=
  doc.secrets.foldlM (importSecret P subj mode) rep

/-- The transaction of `Import`. -/
def importTx (subj : Subjects) (doc : Document) (mode : String) : Sql Report := do
  let (issuerIDByName, rep) ← importIssuers P subj doc mode .empty
  let (certIDBySerial, rep) ← importCertificates P subj doc mode issuerIDByName rep
  let rep ← importGrants P subj doc issuerIDByName certIDBySerial rep
  importSecrets P subj doc mode rep

def backupEvent (subj : Subjects) (type : AuditType) : AuditEvent :=
  ⟨subj.tenantID, type, subj.actorKind, subj.actorID, some subj.tenantID, .ok, ""⟩

/-- `Import`. -/
def importBackup (subj : Subjects) (doc : Document) (mode : String) : Svc Report :=
  if mode ≠ "skip" ∧ mode ≠ "overwrite" then fail .importMode
  else if doc.issuers.length > maxIssuers ∨ doc.certificates.length > maxCerts ∨
      doc.secrets.length > maxSecrets ∨ doc.permissions.length > maxGrants then
    fail (.invalidDocument "too many items")
  else do
    let rep ← repo (.importBackup subj.tenantID doc mode) (importTx P subj doc mode)
    emit (backupEvent subj .backupImported)
    pure rep

/-! ## Export -/

def publicIssuerSettings (row : Issuer) : Settings :=
  match P.decodeSettings row.settingsPublic with
  | .ok p => p.publicPart issuerSecretFields
  | .error _ => .empty

def exportIssuer (includeCredentials : Bool) (i : Issuer) : Except Err DocIssuer := do
  let creds ←
    if includeCredentials then do
      let full ← openIssuer P i
      pure (full.onlyFields issuerSecretFields)
    else pure .empty
  pure ⟨i.name, i.type, i.trustDomain, i.isDefault, publicIssuerSettings P i, creds⟩

/-- A certificate as it is exported: everything but its key. -/
def exportCertificate (issuers : List Issuer) (c : IssuedCertificate) : DocCertificate where
  serial := c.serial
  spiffeID := c.spiffeID
  issuer := ((issuers.find? fun i => i.id == c.issuerID).map Issuer.name).getD ""
  subject := c.subject
  sans := c.sans
  notBefore := c.notBefore
  notAfter := c.notAfter
  fingerprintSHA256 := c.fingerprintSHA256
  status := c.status
  certPEM := c.certPEM
  chainPEM := c.chainPEM

def permissionOf (g : Grant) (ref : String) : DocPermission :=
  ⟨g.resourceType, ref, g.subjectType, g.subjectID, g.relation, g.expiresAt⟩

/-- The grants on the resources, which are given with the reference they are exported under. -/
def exportGrants (tenantID : Id) (type : ResourceType) :
    List (Id × String) → Svc (List DocPermission)
  | [] => pure []
  | (id, ref) :: rest => do
    let grants ← fetch (Sql.grantsOnResource tenantID type id)
    let more ← exportGrants tenantID type rest
    pure (grants.map (fun g => permissionOf g ref) ++ more)

/-- The secrets, when they are included. -/
def exportSecrets (tenantID : Id) (includeCredentials : Bool) : Svc (List DocSecret) :=
  if includeCredentials then do
    let secrets ← fetch (Sql.listSecrets P tenantID)
    ofExcept (secrets.mapM fun sec => do
      let value ← openSecret P sec
      pure ⟨sec.name, sec.kind, value⟩)
  else pure []

/-- `Export`. -/
def exportBackup (subj : Subjects) (includeCredentials : Bool) : Svc Document := do
  let now ← Svc.now
  let issuers ← fetch (Sql.listIssuers P subj.tenantID "" maxIssuers)
  let docIssuers ← ofExcept (issuers.mapM (exportIssuer P includeCredentials))
  let certs ← listAllCertificates subj.tenantID
  let onIssuers ← exportGrants subj.tenantID .issuer (issuers.map fun i => (i.id, i.name))
  let onCerts ← exportGrants subj.tenantID .certificate (certs.map fun c => (c.id, c.serial))
  let secrets ← exportSecrets P subj.tenantID includeCredentials
  emit (backupEvent subj
    (if includeCredentials then .backupExportedWithCredentials else .backupExported))
  pure ⟨1, now, subj.tenantID, includeCredentials, docIssuers,
    certs.map (exportCertificate issuers), onIssuers ++ onCerts, secrets⟩

end Lcm.Transfer
