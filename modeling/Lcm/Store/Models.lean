import Lcm.Db.Table

/-!
# The rows of the lcm database

One structure per table and one enumeration per column with a check constraint. A column
that may be NULL is an `Option`, except `key_sealed`, where NULL is the empty byte string.
JSON arrays of names are lists of strings. `updated_at` is written by every update and read
by none of the functions modelled here, so it is left out.
-/

namespace Lcm

open Db

/-- A UUID column, as its 128-bit number. -/
abbrev Id := Nat

/-- Microseconds since Go's zero time, the resolution the database keeps; `0` is the time for
which `IsZero` holds. -/
abbrev Time := Int

/-- A Go `time.Duration`, in microseconds. -/
abbrev Duration := Int

/-- A byte string; the empty one stands for `nil` and NULL too. -/
abbrev Blob := List UInt8

def second : Duration := 1000000

inductive IssuerType where
  | selfSigned
  | acme
deriving DecidableEq

/-- A signing authority for a trust domain. -/
structure Issuer where
  id : Id
  tenantID : Id
  name : String
  type : IssuerType
  trustDomain : String
  isDefault : Bool
  caID : Option Id
  acmeDirectoryURL : String
  acmeEmail : String
  dnsProvider : String
  settingsPublic : String
  settingsSealed : Blob
  enabled : Bool
  createdBy : Option String
  updatedBy : Option String
deriving DecidableEq

inductive CAState where
  | active
  | next
  | retiring
deriving DecidableEq

/-- Root material for a trust domain, with rotation. -/
structure CA where
  id : Id
  tenantID : Id
  trustDomain : String
  certPEM : String
  keySealed : Blob
  state : CAState
  notBefore : Time
  notAfter : Time
  serial : String
  createdAt : Time
deriving DecidableEq

/-- A SPIFFE SVID, or a certificate for DNS names obtained through ACME. -/
inductive CertKind where
  | svid
  | generic
deriving DecidableEq

inductive RequestStatus where
  | pending
  | approved
  | rejected
  | issued
  | processing
  | failed
deriving DecidableEq

inductive RequesterKind where
  | user
  | service
  | token
deriving DecidableEq

/-- An application for a certificate, or an ACME order. -/
structure CertificateRequest where
  id : Id
  tenantID : Id
  issuerID : Option Id
  kind : Option CertKind
  spiffeID : String
  sans : List String
  csrPEM : Option String
  validitySeconds : Int
  requestedBy : String
  requesterKind : RequesterKind
  status : RequestStatus
  approver : Option String
  reason : Option String
  certificateID : Option Id
  createdAt : Time
deriving DecidableEq

inductive JobType where
  | issue
  | renew
  | acme
deriving DecidableEq

inductive JobStatus where
  | queued
  | processing
  | completed
  | failed
deriving DecidableEq

/-- The asynchronous execution of a request. -/
structure CertificateJob where
  id : Id
  tenantID : Id
  requestID : Id
  type : JobType
  status : JobStatus
  leaseUntil : Option Time
  attempts : Nat
  maxAttempts : Nat
  resultCertificateID : Option Id
  error : Option String
  runAfter : Time
  createdAt : Time
deriving DecidableEq

inductive CertStatus where
  | active
  | expiring
  | expired
  | revoked
deriving DecidableEq

/-- A minted certificate. `kind` is `none` only in a row that has not been stored yet. -/
structure IssuedCertificate where
  id : Id
  tenantID : Id
  issuerID : Id
  kind : Option CertKind
  requestID : Option Id
  serial : String
  spiffeID : String
  subject : String
  sans : List String
  notBefore : Time
  notAfter : Time
  fingerprintSHA256 : String
  status : CertStatus
  certPEM : String
  chainPEM : String
  keySealed : Blob
  keyDelivered : Bool
  autoRenew : Bool
  supersededBy : Option Id
  owner : String
  createdBy : Option String
  updatedBy : Option String
  createdAt : Time
deriving DecidableEq

/-- One row of the revocations table, which feeds the CRL. -/
structure Revocation where
  id : Id
  tenantID : Id
  certificateID : Id
  serial : String
  reason : String
  revokedAt : Time
  revokedBy : Option String
deriving DecidableEq

inductive ResourceType where
  | certificate
  | issuer
deriving DecidableEq

inductive SubjectType where
  | user
  | role
  | tenant
deriving DecidableEq

inductive Relation where
  | owner
  | editor
  | viewer
  | sharer
deriving DecidableEq

/-- A relation tuple on a certificate or issuer. -/
structure Grant where
  id : Id
  tenantID : Id
  resourceType : ResourceType
  resourceID : Id
  subjectType : SubjectType
  subjectID : String
  relation : Relation
  grantedBy : Option String
  grantedAt : Time
  expiresAt : Option Time
deriving DecidableEq

inductive SecretKind where
  | acmeAccount
  | dnsCredential
deriving DecidableEq

/-- A per-tenant credential. -/
structure TenantSecret where
  id : Id
  tenantID : Id
  name : String
  kind : SecretKind
  valueSealed : Blob
  createdBy : Option String
  updatedBy : Option String
deriving DecidableEq

/-- An external callback subscription. -/
structure WebhookEndpoint where
  id : Id
  tenantID : Id
  name : String
  url : String
  eventTypes : List String
  secretSealed : Blob
  enabled : Bool
  createdBy : Option String
  updatedBy : Option String
  createdAt : Time
deriving DecidableEq

/-- A destination a certificate can be deployed to. -/
structure DeploymentTarget where
  id : Id
  tenantID : Id
  name : String
  kind : String
  configPublic : String
  configSealed : Blob
  createdBy : Option String
  updatedBy : Option String
  createdAt : Time
deriving DecidableEq

inductive LogEvent where
  | issued
  | renewed
  | revoked
  | failed
deriving DecidableEq

/-- One entry of the issuance, renewal and revocation history. -/
structure CertLogRow where
  ts : Time
  tenantID : Id
  certificateID : Id
  event : LogEvent
  issuerID : Id
  spiffeID : String
deriving DecidableEq

/-! ## What the updates write -/

/-- The columns `setRequestStatus` writes; NULL keeps the approver and the reason. -/
def CertificateRequest.setStatus (r : CertificateRequest) (status : RequestStatus)
    (approver reason : Option String) : CertificateRequest :=
  { r with status, approver := approver <|> r.approver, reason := reason <|> r.reason }

/-- The mutable columns of a job. -/
def CertificateJob.write (j old : CertificateJob) : CertificateJob :=
  { old with
    status := j.status, leaseUntil := j.leaseUntil, attempts := j.attempts,
    maxAttempts := j.maxAttempts, resultCertificateID := j.resultCertificateID,
    error := j.error, runAfter := j.runAfter }

/-- A claimed job: in processing, leased, one more attempt. -/
def CertificateJob.claim (j : CertificateJob) (leaseUntil : Time) : CertificateJob :=
  { j with status := .processing, leaseUntil := some leaseUntil, attempts := j.attempts + 1 }

/-- The mutable columns of a certificate. -/
def IssuedCertificate.write (c old : IssuedCertificate) : IssuedCertificate :=
  { old with
    status := c.status, chainPEM := c.chainPEM, keySealed := c.keySealed,
    keyDelivered := c.keyDelivered, supersededBy := c.supersededBy, owner := c.owner,
    updatedBy := c.updatedBy, autoRenew := c.autoRenew }

/-- The mutable columns of an issuer. -/
def Issuer.write (i old : Issuer) : Issuer :=
  { old with
    name := i.name, type := i.type, trustDomain := i.trustDomain, isDefault := i.isDefault,
    caID := i.caID, acmeDirectoryURL := i.acmeDirectoryURL, acmeEmail := i.acmeEmail,
    dnsProvider := i.dnsProvider, settingsPublic := i.settingsPublic,
    settingsSealed := i.settingsSealed, enabled := i.enabled, updatedBy := i.updatedBy }

/-- The columns a second grant to the same subject writes. -/
def Grant.write (g old : Grant) : Grant :=
  { old with
    relation := g.relation, grantedBy := g.grantedBy, grantedAt := g.grantedAt,
    expiresAt := g.expiresAt }

def TenantSecret.write (s old : TenantSecret) : TenantSecret :=
  { old with
    name := s.name, kind := s.kind, valueSealed := s.valueSealed, updatedBy := s.updatedBy }

/-- Which certificates a listing shows: empty fields do not restrict it, and the page starts
below the cursor. -/
structure CertificateFilter where
  issuerID : Option Id
  spiffeID : String
  status : Option CertStatus
  cursorTS : Time
  cursorID : Option Id
  limit : Nat

/-- `defaultKind`: an unset kind is stored as `svid`. -/
def defaultKind (k : Option CertKind) : CertKind := k.getD .svid

/-- The row as `INSERT` stores it, with the default kind. -/
def CertificateRequest.stored (r : CertificateRequest) (now : Time) : CertificateRequest :=
  { r with kind := some (defaultKind r.kind), createdAt := now }

/-- The row as `INSERT` stores it: the default kind, and `created_by` in both author
columns. -/
def IssuedCertificate.stored (c : IssuedCertificate) (now : Time) : IssuedCertificate :=
  { c with kind := some (defaultKind c.kind), updatedBy := c.createdBy, createdAt := now }

/-- The columns `setCertificateStatus` writes; a NULL successor keeps the old one. -/
def IssuedCertificate.setStatus (c : IssuedCertificate) (status : CertStatus)
    (supersededBy : Option Id) : IssuedCertificate :=
  { c with status, supersededBy := supersededBy <|> c.supersededBy }

/-- The row once its key has been handed out. -/
def IssuedCertificate.delivered (c : IssuedCertificate) : IssuedCertificate :=
  { c with keyDelivered := true, keySealed := [] }

namespace IssuedCertificate

@[simp] theorem write_id (c old : IssuedCertificate) : (c.write old).id = old.id := rfl

@[simp] theorem setStatus_id (c : IssuedCertificate) (st : CertStatus) (sup : Option Id) :
    (c.setStatus st sup).id = c.id := rfl

@[simp] theorem setStatus_tenantID (c : IssuedCertificate) (st : CertStatus) (sup : Option Id) :
    (c.setStatus st sup).tenantID = c.tenantID := rfl

@[simp] theorem delivered_id (c : IssuedCertificate) : c.delivered.id = c.id := rfl

end IssuedCertificate

@[simp] theorem Grant.write_id (g old : Grant) : (g.write old).id = old.id := rfl

@[simp] theorem CertificateRequest.setStatus_id (r : CertificateRequest) (st : RequestStatus)
    (a b : Option String) : (r.setStatus st a b).id = r.id := rfl

@[simp] theorem CertificateJob.write_id (j old : CertificateJob) : (j.write old).id = old.id := rfl

/-- The database. Every table but the log has its id as primary key. -/
structure Database where
  issuers : Table Issuer.id
  cas : Table CA.id
  requests : Table CertificateRequest.id
  jobs : Table CertificateJob.id
  certificates : Table IssuedCertificate.id
  revocations : Table Revocation.id
  grants : Table Grant.id
  secrets : Table TenantSecret.id
  certLog : List CertLogRow
  webhooks : Table WebhookEndpoint.id := .empty
  targets : Table DeploymentTarget.id := .empty

def Database.empty : Database where
  issuers := .empty
  cas := .empty
  requests := .empty
  jobs := .empty
  certificates := .empty
  revocations := .empty
  grants := .empty
  secrets := .empty
  certLog := []

/-- The stored row of a certificate, as a tenant sees it. -/
def Database.certificate? (db : Database) (tenantID id : Id) : Option IssuedCertificate :=
  (db.certificates.get? id).filter fun c => c.tenantID == tenantID

/-- The stored row of a request, as a tenant sees it. -/
def Database.request? (db : Database) (tenantID id : Id) : Option CertificateRequest :=
  (db.requests.get? id).filter fun r => r.tenantID == tenantID

/-- The stored row of a job, as a tenant sees it. -/
def Database.job? (db : Database) (tenantID id : Id) : Option CertificateJob :=
  (db.jobs.get? id).filter fun j => j.tenantID == tenantID

/-- The revocations table holds a row of the tenant for the certificate. -/
def Database.OnRecord (s : Database) (t id : Id) : Prop :=
  ∃ r ∈ s.revocations.rows, r.tenantID = t ∧ r.certificateID = id

instance (s : Database) (t id : Id) : Decidable (s.OnRecord t id) :=
  inferInstanceAs (Decidable (∃ _ ∈ _, _))

variable {db : Database} {id t : Id} {c : IssuedCertificate}

theorem Database.certificate?_eq_some : db.certificate? t id = some c ↔
      c ∈ db.certificates.rows ∧ c.id = id ∧ c.tenantID = t := by
  simp [certificate?, Option.filter_eq_some_iff, Table.get?_eq_some_iff, and_assoc]

theorem Database.request?_eq_some {r : CertificateRequest} :
    db.request? t id = some r ↔ r ∈ db.requests.rows ∧ r.id = id ∧ r.tenantID = t := by
  simp [request?, Option.filter_eq_some_iff, Table.get?_eq_some_iff, and_assoc]

theorem Database.job?_eq_some {j : CertificateJob} :
    db.job? t id = some j ↔ j ∈ db.jobs.rows ∧ j.id = id ∧ j.tenantID = t := by
  simp [job?, Option.filter_eq_some_iff, Table.get?_eq_some_iff, and_assoc]

/-! ## Lookups after a write -/

namespace Database

/-- Rewrite one certificate row. -/
def mapCertificate (s : Database) (id : Id) (f : IssuedCertificate → IssuedCertificate)
    (hf : ∀ c, (f c).id = c.id) : Database :=
  { s with certificates := s.certificates.update id f hf }

theorem certificate?_mapCertificate (s : Database) (id : Id)
    (f : IssuedCertificate → IssuedCertificate) (hf : ∀ c, (f c).id = c.id)
    (ht : ∀ c, (f c).tenantID = c.tenantID) (t' id' : Id) :
    (s.mapCertificate id f hf).certificate? t' id' =
      (s.certificate? t' id').map fun c => if id' = id then f c else c := by
  unfold certificate? mapCertificate
  rw [Table.get?_update]
  by_cases hid : id' = id
  · simp only [hid, if_true]
    cases s.certificates.get? id with
    | none => rfl
    | some c => by_cases hc : c.tenantID = t' <;> simp [Option.filter, ht, hc]
  · simp [hid]

theorem certificate?_congr {s s' : Database} (h : s'.certificates = s.certificates) (t id : Id) :
    s'.certificate? t id = s.certificate? t id := by
  unfold certificate?
  rw [h]

theorem tenant_unique {s : Database} {t' : Id} (h : s.certificate? t id = some c)
    (h' : (s.certificate? t' id).isSome) : t' = t := by
  obtain ⟨c', hc'⟩ := Option.isSome_iff_exists.1 h'
  obtain ⟨hm, hid, ht⟩ := certificate?_eq_some.1 h
  obtain ⟨hm', hid', ht'⟩ := certificate?_eq_some.1 hc'
  obtain rfl := s.certificates.eq_of_key_eq hm hm' (hid.trans hid'.symm)
  exact ht'.symm.trans ht

end Database

end Lcm
