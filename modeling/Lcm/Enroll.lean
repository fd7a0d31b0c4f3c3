import Lcm.Issue.Certificates

/-!
# Requests and jobs

`enroll/requests.go` and `enroll/jobs.go`: a pending request is approved, which enqueues a
job, or rejected; the scheduler claims due jobs and mints their certificates. A decision is
checked on the request as it was read and written in a later repository call.
-/

namespace Lcm.Enroll

open Conc Db Svc Authz

variable (P : Platform)

def ptrOrNil (s : String) : Option String := if s = "" then none else some s

/-- The status as the database spells it. -/
def requestStatusText : RequestStatus → String
  | .pending => "pending"
  | .approved => "approved"
  | .rejected => "rejected"
  | .issued => "issued"
  | .processing => "processing"
  | .failed => "failed"

def jobStatusText : JobStatus → String
  | .queued => "queued"
  | .processing => "processing"
  | .completed => "completed"
  | .failed => "failed"

/-- `requestIssuerID`: the pinned issuer, or the default of the trust domain. -/
def requestIssuerID (tenantID : Id) (r : CertificateRequest) : Svc Id :=
  match r.issuerID with
  | some id => pure id
  | none =>
    match Csr.parseSPIFFEID P r.spiffeID with
    | none => fail .notFound
    | some sid => do
      let issuer ← fetch (Sql.defaultIssuer tenantID sid.trustDomain)
      pure issuer.id

def requestEvent (subj : Subjects) (type : AuditType) (id : Id) : AuditEvent :=
  ⟨subj.tenantID, type, subj.actorKind, subj.actorID, some id, .ok, ""⟩

/-- What both decisions check: the caller may write to the issuer and the request, as read,
is pending. -/
def decisionCheck (subj : Subjects) (id : Id) (target : RequestStatus) : Svc CertificateRequest := do
  let r ← fetch (Sql.getRequest subj.tenantID id)
  let issuerID ← requestIssuerID P subj.tenantID r
  check subj .issuer issuerID .write
  if r.status ≠ .pending then
    fail (.transition id (requestStatusText r.status) (requestStatusText target))
  else pure r

def approveRequest (subj : Subjects) (id : Id) (reason : String) : Svc CertificateRequest := do
  let _ ← decisionCheck P subj id .approved
  let jobID ← newID
  let now ← Svc.now
  repo (.approve subj.tenantID id jobID) do
    Sql.setRequestStatus subj.tenantID id .approved (ptrOrNil subj.actorID) (ptrOrNil reason)
    Sql.insertJob
      { id := jobID, tenantID := subj.tenantID, requestID := id, type := .issue,
        status := .queued, leaseUntil := none, attempts := 0, maxAttempts := P.maxAttempts,
        resultCertificateID := none, error := none, runAfter := now, createdAt := 0 }
  emit (requestEvent subj .requestApproved id)
  fetch (Sql.getRequest subj.tenantID id)

def rejectRequest (subj : Subjects) (id : Id) (reason : String) : Svc CertificateRequest := do
  let _ ← decisionCheck P subj id .rejected
  repo (.setRequestStatus subj.tenantID id .rejected)
    (Sql.setRequestStatus subj.tenantID id .rejected (ptrOrNil subj.actorID) (ptrOrNil reason))
  emit (requestEvent subj .requestRejected id)
  fetch (Sql.getRequest subj.tenantID id)

/-- `authorizeReadRequest`: the requester, or whoever may read the request's issuer. -/
def authorizeReadRequest (subj : Subjects) (r : CertificateRequest) : Svc Unit :=
  if subj.actorID ≠ "" ∧ r.requestedBy = subj.actorID then pure ()
  else do
    let r ← attempt (requestIssuerID P subj.tenantID r)
    match r with
    | .error _ => fail .forbidden
    | .ok issuerID => check subj .issuer issuerID .read

/-- `authorizeJob`: administrators pass even when the request or issuer is gone. -/
def authorizeJob (subj : Subjects) (j : CertificateJob) (action : Action) : Svc Unit := do
  let r ← attempt (do
    let r ← fetch (Sql.getRequest subj.tenantID j.requestID)
    requestIssuerID P subj.tenantID r)
  match r with
  | .error _ => if subj.isAdmin then pure () else fail .forbidden
  | .ok issuerID => check subj .issuer issuerID action

/-- `UpdateJob`, as a repository call. -/
def writeJob (j : CertificateJob) : Svc Unit := repo (.updateJob j) (Sql.updateJob j)

/-- `CancelJob`: a queued or processing job fails. -/
def cancelJob (subj : Subjects) (id : Id) : Svc CertificateJob := do
  let j ← fetch (Sql.getJob subj.tenantID id)
  authorizeJob P subj j .write
  if j.status ≠ .queued ∧ j.status ≠ .processing then
    fail (.transition id (jobStatusText j.status) (jobStatusText .failed))
  else
    writeJob { j with status := .failed, leaseUntil := none, error := some "cancelled" }
    emit ⟨subj.tenantID, .enrollmentRefused, subj.actorKind, subj.actorID, some id, .refused,
      "job cancelled"⟩
    fetch (Sql.getJob subj.tenantID id)

/-- `RetryJob`: a failed job with attempts left is queued again. -/
def retryJob (subj : Subjects) (id : Id) : Svc CertificateJob := do
  let j ← fetch (Sql.getJob subj.tenantID id)
  authorizeJob P subj j .write
  if j.status ≠ .failed then
    fail (.transition id (jobStatusText j.status) (jobStatusText .queued))
  else if j.attempts ≥ j.maxAttempts then
    fail (.transition id "attempts_exhausted" (jobStatusText .queued))
  else
    let now ← Svc.now
    writeJob { j with status := .queued, error := none, leaseUntil := none, runAfter := now }
    fetch (Sql.getJob subj.tenantID id)

/-! ## The worker -/

/-- `failJob`: record a failure; an error of the write is ignored. -/
def failJob (job : CertificateJob) (msg : String) : Svc Unit := do
  let job := { job with status := .failed, leaseUntil := none, error := ptrOrNil msg }
  let _ ← attempt (writeJob job)
  emit ⟨job.tenantID, .enrollmentRefused, "system", "system", some job.id, .failed, msg⟩

/-- `scrub`. The errors of the issue service are not the validation errors it looks for. -/
def scrub (_ : Err) : String := "issuance failed"

/-- The signing request of a job. -/
def jobInput (r : CertificateRequest) : IssueInput where
  issuerID := r.issuerID
  spiffeID := r.spiffeID
  csrPEM := r.csrPEM.getD ""
  subject := ""
  dnsSans := r.sans
  validitySeconds := r.validitySeconds
  deliverKey := false
  retainKey := false

/-- The job with its result, as the transaction of `ProcessJob` sets it. -/
def completed (job : CertificateJob) (certID : Id) : CertificateJob :=
  { job with
    status := .completed, resultCertificateID := some certID, error := none, leaseUntil := none }

/-- The transaction that records a job's result. -/
def recordTx (job : CertificateJob) (r : CertificateRequest) (certID : Id) : Sql Unit := do
  Sql.updateJob (completed job certID)
  Sql.setRequestStatus job.tenantID r.id .issued none none
  -- hand ownership to the requester when it was a user
  if r.requesterKind = .user ∧ r.requestedBy ≠ "" then
    grantOwner job.tenantID .certificate certID r.requestedBy
  else pure ()

/-- Record a job's result; also says whether the body of the transaction ran, because it
sets the fields of the job that `failJob` writes afterwards. -/
def recordResult (job : CertificateJob) (r : CertificateRequest) (certID : Id) :
    Svc (Except Err Unit × Bool) :=
  Prog.step
    (fun e s => ((transact (recordTx job r certID) e s).2,
      .recordResult job r.id certID (transact (recordTx job r certID) e s).1))
    fun e s => Prog.ret (.ok ((transact (recordTx job r certID) e s).1,
      match e.fault with
      | .begin _ => false
      | _ => true))

/-- `ProcessJob`, with the request already read. -/
def processRequest (job : CertificateJob) (r : CertificateRequest) : Svc Unit := do
  -- act as the requested identity: approval gated the request
  let b ← attempt (Issue.issue P (serviceSubjects job.tenantID r.spiffeID) (jobInput r))
  match b with
  | .error e => failJob job (scrub e)
  | .ok b =>
    let certID := b.certificate.id
    let (res, ran) ← recordResult job r certID
    match res with
    | .error _ => failJob (if ran then completed job certID else job) "persisting result failed"
    | .ok () =>
      emit ⟨job.tenantID, .enrollmentIssued, "system", "system", some certID, .ok, ""⟩

/-- `ProcessJob`: mint the certificate of a claimed job. It never returns an error. -/
def processJob (job : CertificateJob) : Svc Unit := do
  ask (fun _ => ()) fun _ => .processJob job
  let r ← attempt (fetch (Sql.getRequest job.tenantID job.requestID))
  match r with
  | .error _ => failJob job "request unavailable"
  | .ok r => processRequest P job r

/-- Process a batch, counting the jobs processed without an error. -/
def processAll : List CertificateJob → Nat → Svc Nat
  | [], n => pure n
  | j :: js, n => do
    let r ← attempt (processJob P j)
    match r with
    | .ok () => processAll js (n + 1)
    | .error _ => processAll js n

/-- `Once`: claim and process one batch of due jobs. -/
def once : Svc Nat := do
  let now ← Svc.now
  let due ← repo .claimDueJobs (Sql.claimDueJobs now P.jobLease P.jobBatch)
  processAll P due 0

/-! ## What is quiet -/

theorem quiet_requestIssuerID (t : Id) (r : CertificateRequest) :
    Quiet (requestIssuerID P t r) := by
  unfold requestIssuerID
  split
  · exact only_pure _
  split
  · exact only_fail _
  · exact only_bind (quiet_fetch (Sql.readOnly_defaultIssuer _ _)) fun _ => only_pure _

theorem quiet_decisionCheck (subj : Subjects) (id : Id) (target : RequestStatus) :
    Quiet (decisionCheck P subj id target) := by
  refine only_bind (quiet_fetch (Sql.readOnly_getRequest _ _)) fun r => ?_
  refine only_bind (quiet_requestIssuerID P _ _) fun issuer => ?_
  refine only_bind (quiet_check _ _ _ _) fun _ => ?_
  exact only_ite (only_fail _) (only_pure _)

theorem quiet_authorizeReadRequest (subj : Subjects) (r : CertificateRequest) :
    Quiet (authorizeReadRequest P subj r) := by
  refine only_ite (only_pure _) ?_
  refine only_bind (only_attempt (quiet_requestIssuerID P _ _)) fun r => ?_
  split
  · exact only_fail _
  · exact quiet_check _ _ _ _

theorem quiet_authorizeJob (subj : Subjects) (j : CertificateJob) (a : Action) :
    Quiet (authorizeJob P subj j a) := by
  refine only_bind (only_attempt ?_) fun r => ?_
  · exact only_bind (quiet_fetch (Sql.readOnly_getRequest _ _)) fun r =>
      quiet_requestIssuerID P _ _
  split
  · exact only_ite (only_pure _) (only_fail _)
  · exact quiet_check _ _ _ _

end Lcm.Enroll
