import Lcm.Conc.Pool
import Lcm.Store.Repos
import Lcm.Transfer.Document

/-!
# Service calls as programs

* `Call`: the entry points of the services and the schedulers, with their arguments, and
  `Value`: what they return.
* `Ev`: what a step of a call does. Repository calls that write, and the reads whose row a
  call works on afterwards, say what they did; all other reads are just `read`.
* `Svc`: the programs of the services. A step is one repository call (`repo`), or one look at
  the world (`ask`); the body of an `Atomic` is the code of one transaction.
-/

namespace Lcm

open Conc Db

/-! ## Callers, inputs and results -/

/-- The caller as the grant tables see it. A service has no user id and no roles. -/
structure Subjects where
  tenantID : Id
  userID : String
  roles : List String
  service : String
deriving DecidableEq

/-- The permissions a set of relations carries. -/
structure Permissions where
  read : Bool
  write : Bool
  delete : Bool
  share : Bool
  use : Bool
deriving DecidableEq

/-- A signing request; `issuerID` is `none` for the default issuer. -/
structure IssueInput where
  issuerID : Option Id
  spiffeID : String
  csrPEM : String
  subject : String
  dnsSans : List String
  validitySeconds : Int
  deliverKey : Bool
  retainKey : Bool
deriving DecidableEq

/-- The mutable metadata of a certificate. -/
structure CertificateUpdate where
  owner : String
  autoRenew : Option Bool
deriving DecidableEq

/-- A certificate and key issued by an ACME CA elsewhere. -/
structure ImportInput where
  issuerID : Id
  certPEM : String
  chainPEM : String
  keyPEM : String
  autoRenew : Bool
deriving DecidableEq

/-- An issued certificate as clients see it. -/
structure CertificateView where
  id : Id
  issuerID : Id
  kind : Option CertKind
  serial : String
  spiffeID : String
  subject : String
  sans : List String
  notBefore : Time
  notAfter : Time
  fingerprintSHA256 : String
  status : CertStatus
  keyDelivered : Bool
  hasKey : Bool
  autoRenew : Bool
  supersededBy : Option Id
  owner : String
  createdAt : Time
  permissions : Permissions
deriving DecidableEq

/-- The result of issuance or download. `keyPEM` is empty when no key is returned. -/
structure Bundle where
  certificate : CertificateView
  certPEM : String
  chainPEM : String
  bundlePEM : String
  keyPEM : String
deriving DecidableEq

/-- A new or updated issuer. The settings hold credentials, which are sealed and never
returned. -/
structure IssuerInput where
  name : String
  /-- `self_signed` or `acme`; an update may leave it empty -/
  type : String
  trustDomain : String
  isDefault : Bool
  enabled : Bool
  acmeDirectoryURL : String
  acmeEmail : String
  dnsProvider : String
  settings : Settings
deriving DecidableEq

/-- An issuer as clients see it, with its credentials redacted. -/
structure IssuerView where
  id : Id
  name : String
  type : IssuerType
  trustDomain : String
  isDefault : Bool
  caID : Option Id
  acmeDirectoryURL : String
  acmeEmail : String
  dnsProvider : String
  settings : Settings
  enabled : Bool
  certificateCount : Nat
  createdBy : Option String
  updatedBy : Option String
  permissions : Permissions
deriving DecidableEq

namespace Enroll

/-- Why a token, or the identity asked for with it, is refused. -/
inductive RefusalReason where
  | tokenExpired
  | tokenNotYetValid
  | tokenUsed
  | tokenInvalid
  | spiffeIDNotAllowed
  | trustDomainMismatch
deriving DecidableEq

/-- The detail of a refusal: the trust domains the grant names, where they are told. -/
structure RefusalError where
  reason : RefusalReason
  expectedTrustDomains : List String
deriving DecidableEq

/-- What a verifier may return instead of a grant. -/
inductive VerifierError where
  /-- `ErrVerifierUnavailable`: no verdict on the token -/
  | unavailable
  | refusal (e : RefusalError)
  /-- a verdict without a known reason -/
  | other
deriving DecidableEq

/-- What a verified token authorises. -/
structure EnrollGrant where
  tenantID : Id
  spiffePaths : List String
deriving DecidableEq

structure EnrollInput where
  spiffeID : String
  csrPEM : String
  enrollmentToken : String
deriving DecidableEq

end Enroll

/-- The entry points. A call of `enroll` carries the verifier's verdict on its token. -/
inductive Call where
  | issue (subj : Subjects) (input : IssueInput)
  | obtainACMEFor (subj : Subjects) (requestID : Option Id) (issuerID : Id)
      (domains : List String) (csrPEM : String) (deliverKey autoRenew : Bool)
  | finishACME (subj : Subjects) (requestID : Id) (certificateID : Id) (orderErr : Option Err)
  | importACME (subj : Subjects) (input : ImportInput)
  | renew (subj : Subjects) (certID : Id)
  | renewSystem (tenantID certID : Id)
  | revoke (subj : Subjects) (certID : Id) (reason : String)
  | updateCertificate (subj : Subjects) (id : Id) (input : CertificateUpdate)
  | deleteCertificate (subj : Subjects) (id : Id)
  | markKeyDelivered (subj : Subjects) (certID : Id)
  | getCertificate (subj : Subjects) (id : Id)
  | download (subj : Subjects) (certID : Id)
  | downloadKey (subj : Subjects) (certID : Id)
  | downloadForService (tenantID : Id) (callerSPIFFE : String) (certID : Id) (includeKey : Bool)
  | approveRequest (subj : Subjects) (id : Id) (reason : String)
  | rejectRequest (subj : Subjects) (id : Id) (reason : String)
  | cancelJob (subj : Subjects) (id : Id)
  | retryJob (subj : Subjects) (id : Id)
  | claimDueJobs (now : Time) (lease : Duration) (limit : Nat)
  | processJob (job : CertificateJob)
  | once
  | runOnce
  | renewOne (cert : IssuedCertificate)
  | exportBackup (subj : Subjects) (includeCredentials : Bool)
  | importBackup (subj : Subjects) (doc : Transfer.Document) (mode : String)
  | createIssuer (subj : Subjects) (input : IssuerInput)
  | updateIssuer (subj : Subjects) (id : Id) (input : IssuerInput)
  | deleteIssuer (subj : Subjects) (id : Id)
  | ensureCA (tenantID : Id) (trustDomain : String)
  | signLeaf (tenantID : Id) (trustDomain spiffeID : String) (pub : PublicKey) (ttl : Duration)
  | enroll (autoApprove : Bool) (verdict : Except Enroll.VerifierError Enroll.EnrollGrant)
      (subj : Subjects) (input : Enroll.EnrollInput)
deriving DecidableEq

/-- What a call returns besides an error. -/
inductive Value where
  | unit
  | bundle (b : Bundle)
  | certificate (v : CertificateView)
  | key (pem : String)
  | request (r : CertificateRequest)
  | job (j : CertificateJob)
  | jobs (js : List CertificateJob)
  | count (n : Nat)
  | renewed (ok : Bool)
  | document (doc : Transfer.Document)
  | report (rep : Transfer.Report)
  | issuer (v : IssuerView)
  | ca (c : CA)
  | leaf (der : Blob) (notAfter : Time)
  /-- what `Enroll` says besides a service error is not looked at here -/
  | enrolled
deriving DecidableEq

/-! ## Events -/

inductive AuditType where
  | certificateRequested
  | certificateIssued
  | certificateRenewed
  | certificateRevoked
  | certificateDeleted
  | certificateImported
  | requestApproved
  | requestRejected
  | enrollmentIssued
  | enrollmentRefused
  | backupExported
  | backupExportedWithCredentials
  | backupImported
  | issuerCreated
  | issuerUpdated
  | issuerDeleted
  | secretCreated
  | secretUpdated
  | secretRotated
  | secretDeleted
  | webhookCreated
  | webhookDeleted
  | certificateDeployed
deriving DecidableEq

inductive AuditOutcome where
  | ok
  | refused
  | failed
deriving DecidableEq

structure AuditEvent where
  tenantID : Id
  eventType : AuditType
  actorKind : String
  actorID : String
  subjectID : Option Id
  outcome : AuditOutcome
  reason : String
deriving DecidableEq

/-- What a step does. -/
inductive Ev where
  /-- a look at the clock, a random source or the account at the ACME CA -/
  | look
  /-- `store.NewID` -/
  | newID (id : Id)
  /-- `ecdsa.GenerateKey` -/
  | genKey (key : Option PrivateKey)
  /-- an order is placed with the ACME CA, which answers -/
  | order (csrDER : Blob) (domains : List String) (r : Except Err String)
  | audit (e : AuditEvent)
  /-- a repository call that reads -/
  | read
  /-- the read of the row a call works on from here -/
  | getCertificate (tenantID id : Id) (r : Except Err IssuedCertificate)
  /-- the `Atomic` that inserts a certificate with its log entry and owner grant -/
  | insertCertificate (row : IssuedCertificate) (r : Except Err Unit)
  | updateCertificate (row : IssuedCertificate) (r : Except Err Unit)
  | setCertificateStatus (tenantID id : Id) (status : CertStatus) (supersededBy : Option Id)
      (r : Except Err Unit)
  | markKeyDelivered (tenantID id : Id) (r : Except Err Unit)
  /-- the `Atomic` of `Revoke` -/
  | revoke (tenantID id : Id) (r : Except Err Unit)
  /-- the `Atomic` of `DeleteCertificate` -/
  | deleteCertificate (tenantID id : Id) (r : Except Err Unit)
  /-- the read-back of the row a call has stored -/
  | readBack (tenantID id : Id) (r : Except Err IssuedCertificate)
  | insertRequest (row : CertificateRequest) (r : Except Err Unit)
  | completeRequest (tenantID id : Id) (status : RequestStatus) (r : Except Err Unit)
  /-- the `Atomic` of `ApproveRequest` -/
  | approve (tenantID id jobID : Id) (r : Except Err Unit)
  | setRequestStatus (tenantID id : Id) (status : RequestStatus) (r : Except Err Unit)
  | updateJob (job : CertificateJob) (r : Except Err Unit)
  | claimDueJobs (r : Except Err (List CertificateJob))
  /-- `ProcessJob` is entered -/
  | processJob (job : CertificateJob)
  /-- the `Atomic` of `ProcessJob` that records the result -/
  | recordResult (job : CertificateJob) (requestID certID : Id) (r : Except Err Unit)
  | dueForRenewal (r : Except Err (List IssuedCertificate))
  /-- the `Atomic` of `Import` -/
  | importBackup (tenantID : Id) (doc : Transfer.Document) (mode : String)
      (r : Except Err Transfer.Report)
  /-- the write of `Grant` or `Revoke` -/
  | writeGrants
  /-- the write of a secret, a webhook or a deployment target -/
  | writeCredentials
  /-- the read of the issuer a certificate is to come from -/
  | readIssuer (r : Except Err Issuer)
  /-- a leaf is signed under the CA certificate `parent` -/
  | sign (leaf parent : X509)
  /-- the `Atomic` of `EnsureCA` -/
  | ensureCA (tenantID : Id) (trustDomain : String) (r : Except Err CA)
  /-- the `Atomic` of `CreateIssuer` -/
  | insertIssuer (row : Issuer) (r : Except Err Unit)
  /-- the `Atomic` of `UpdateIssuer` -/
  | updateIssuer (row : Issuer) (r : Except Err Unit)
  /-- the `Atomic` of `DeleteIssuer` -/
  | deleteIssuer (tenantID id : Id) (r : Except Err Unit)
deriving DecidableEq

/-- The event says nothing about the data: only the caller has seen something. -/
def Ev.Quiet : Ev → Prop
  | look | audit _ | read | readIssuer _ => True
  | _ => False

/-- Like `Quiet`, but an id may be drawn, a key generated and an order placed. -/
def Ev.Looks : Ev → Prop
  | look | newID _ | audit _ | read | readIssuer _ | genKey _ | order _ _ _ => True
  | _ => False

def Ev.Signs : Ev → Prop
  | sign _ _ => True
  | _ => False

/-- Like `Looks`, but a leaf may be signed. -/
def Ev.Silent : Ev → Prop
  | look | newID _ | audit _ | read | readIssuer _ | sign _ _ | genKey _ | order _ _ _ => True
  | _ => False

variable {e : Ev}

theorem Ev.Quiet.looks (h : e.Quiet) : e.Looks := by
  cases e <;> trivial

theorem Ev.Looks.silent (h : e.Looks) : e.Silent := by
  cases e <;> trivial

theorem Ev.Signs.silent (h : e.Signs) : e.Silent := by
  cases e <;> trivial

theorem Ev.Quiet.silent (h : e.Quiet) : e.Silent := h.looks.silent

/-! ## Programs -/

/-- A program of the services: it returns a value or an error. -/
def Svc (α : Type) : Type := Prog Env Database Ev Call (Except Err α)

namespace Svc

variable {α β : Type}

/-- The program as a resumption. -/
def run (m : Svc α) : Prog Env Database Ev Call (Except Err α) := m

protected def pure (a : α) : Svc α := Prog.ret (.ok a)

/-- Go's `if err != nil { return err }` after every call. -/
protected def bind (m : Svc α) (f : α → Svc β) : Svc β :=
  Prog.bind m fun
    | .ok a => f a
    | .error e => Prog.ret (.error e)

instance : Monad Svc where
  pure := Svc.pure
  bind := Svc.bind

/-- Return an error. -/
def fail (e : Err) : Svc α := Prog.ret (.error e)

/-- Run a call and look at its error instead of returning it. -/
def attempt (m : Svc α) : Svc (Except Err α) := Prog.bind m fun r => Prog.ret (.ok r)

/-- Return the error of a pure computation. -/
def ofExcept (r : Except Err α) : Svc α := Prog.ret r

/-- Look at the world. -/
def ask (f : Env → α) (ev : α → Ev) : Svc α :=
  Prog.step (fun e s => (s, ev (f e))) fun e _ => Prog.ret (.ok (f e))

/-- Look at the world; what it says may be an error. -/
def askExcept (f : Env → Except Err α) : Svc α :=
  Prog.step (fun _ s => (s, .look)) fun e _ => Prog.ret (f e)

/-- The transaction as the database runs it in one step, unless the call fails. -/
def transact (m : Sql α) (e : Env) (s : Database) : Except Err α × Database :=
  match e.fault with
  | .ok => m.atomic e s
  | .begin t => (.error (.database t), s)
  | .stmt t => (.error (.database t), s)

def repo (ev : Except Err α → Ev) (m : Sql α) : Svc α :=
  Prog.step (fun e s => ((transact m e s).2, ev (transact m e s).1))
    fun e s => Prog.ret (transact m e s).1

/-- One repository call that only reads. -/
def fetch (m : Sql α) : Svc α := repo (fun _ => .read) m

/-- Go on with another call. -/
def fork (c : Call) : Svc Unit := Prog.fork c (Prog.ret (.ok ()))

/-- `s.now()`. -/
def now : Svc Time := ask Env.clock fun _ => .look

/-- `store.NewID()`. -/
def newID : Svc Id := ask (fun e => e.newID 0) .newID

/-- Record an audit event; a failure to do so is ignored. -/
def emit (ev : AuditEvent) : Svc Unit := ask (fun _ => ()) fun _ => .audit ev

end Svc

end Lcm
