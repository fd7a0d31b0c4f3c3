import Lcm.Enroll

/-!
# Enrollment

`Enroll` of `enroll/enroll.go` and `createRequest` of `enroll/requests.go`: a workload asks for
a SPIFFE identity, with an enrollment token that another service verifies or as the identity
the platform has authenticated, and is issued a certificate at once or leaves a pending
request. A token's grant takes the place of the caller: its tenant, and the identity asked for
as the acting service.
-/

namespace Lcm.Enroll

open Conc Db Svc Authz Csr

variable (P : Platform)

/-! ## Refusals -/

/-- The reason as the workload reads it. -/
def RefusalReason.text : RefusalReason → String
  | tokenExpired => "enrollment_token_expired"
  | tokenNotYetValid => "enrollment_token_not_yet_valid"
  | tokenUsed => "enrollment_token_used"
  | tokenInvalid => "enrollment_token_invalid"
  | spiffeIDNotAllowed => "enrollment_spiffe_id_not_allowed"
  | trustDomainMismatch => "enrollment_trust_domain_mismatch"

/-- `TokenRefused`: the token itself was refused, rather than the identity asked for. -/
def RefusalError.tokenRefused (e : RefusalError) : Bool :=
  match e.reason with
  | .tokenExpired | .tokenNotYetValid | .tokenUsed | .tokenInvalid => true
  | .spiffeIDNotAllowed | .trustDomainMismatch => false

namespace EnrollGrant

def authorises (g : EnrollGrant) (spiffeID : String) : Bool :=
  g.spiffePaths.any fun p => p == spiffeID

/-- The loop of `refusal`: the trust domains of the paths, unless the given one is among
them. -/
def domains (trustDomain : String) : List String → List String → Option (List String)
  | [], found => some found
  | p :: ps, found =>
    match parseSPIFFEID P p with
    | none => domains trustDomain ps found
    | some id =>
      if id.trustDomain = trustDomain then none
      else domains trustDomain ps
        (if id.trustDomain ∈ found then found else found ++ [id.trustDomain])

/-- `refusal`: a trust domain the grant never names is told apart from a path it does not
name. -/
def refusal (g : EnrollGrant) (trustDomain : String) : RefusalError :=
  match domains P trustDomain g.spiffePaths [] with
  | none | some [] => ⟨.spiffeIDNotAllowed, []⟩
  | some ds => ⟨.trustDomainMismatch, ds⟩

end EnrollGrant

/-- `TokenVerifier`: the world decides what becomes of a token. -/
def TokenVerifier : Type := Env → String → Except VerifierError EnrollGrant

/-- What `Enroll` returns besides a result and the errors of the services it calls. -/
inductive Rejection where
  /-- `ValidationError` -/
  | invalid (field message : String)
  | refused (e : RefusalError)
  /-- the error that wraps `ErrVerifierUnavailable` -/
  | unavailable
deriving DecidableEq

/-! ## Pending requests -/

/-- An application for a certificate. -/
structure RequestInput where
  issuerID : Option Id
  spiffeID : String
  csrPEM : String
  validitySeconds : Int
  dnsSans : List String
deriving DecidableEq

/-- `actorKind`: a token enrollment is a service workload. -/
def actorKind : RequesterKind → String
  | .token | .service => "service"
  | .user => "user"

/-- The row of a new request. -/
def pendingRequest (tenant id : Id) (issuerID : Option Id) (requestedBy : String)
    (requesterKind : RequesterKind) (input : RequestInput) : CertificateRequest where
  id := id
  tenantID := tenant
  issuerID := issuerID
  kind := none
  spiffeID := input.spiffeID
  sans := input.dnsSans
  csrPEM := ptrOrNil input.csrPEM
  validitySeconds := input.validitySeconds
  requestedBy := requestedBy
  requesterKind := requesterKind
  status := .pending
  approver := none
  reason := none
  certificateID := none
  createdAt := 0

/-- The issuer a request is pinned to: the one asked for, or the default of the trust domain,
when there is one. -/
def pinnedIssuer (tenant : Id) (sid : SPIFFEID) (issuerID : Option Id) : Svc (Option Id) := do
  match issuerID with
  | some id => pure (some id)
  | none =>
    let r ← attempt (fetch (Sql.defaultIssuer tenant sid.trustDomain))
    match r with
    | .ok issuer => pure (some issuer.id)
    | .error _ => pure none

def createRequest (tenant : Id) (requestedBy : String) (requesterKind : RequesterKind)
    (input : RequestInput) : Svc (Except Rejection CertificateRequest) := do
  match parseSPIFFEID P input.spiffeID with
  | none => pure (.error (.invalid "spiffe_id" "invalid SPIFFE ID"))
  | some sid =>
    if input.csrPEM ≠ "" ∧ (parseCSR P input.csrPEM).isNone then
      pure (.error (.invalid "csr" "certificate request rejected"))
    else
      let issuerID ← pinnedIssuer tenant sid input.issuerID
      let id ← newID
      let row := pendingRequest tenant id issuerID requestedBy requesterKind input
      let r ← attempt (repo (.insertRequest row) (Sql.insertRequest row))
      match r with
      | .error e =>
        if e.isConflict then pure (.error (.invalid "issuer_id" "unknown issuer")) else fail e
      | .ok () =>
        emit ⟨tenant, .certificateRequested, actorKind requesterKind, requestedBy, some row.id,
          .ok, ""⟩
        let got ← fetch (Sql.getRequest tenant row.id)
        pure (.ok got)

/-- `CreateRequest`: a pending request of the caller. -/
def submitRequest (subj : Subjects) (input : RequestInput) :
    Svc (Except Rejection CertificateRequest) :=
  createRequest P subj.tenantID subj.actorID (if subj.service ≠ "" then .service else .user) input

/-! ## Enrolling -/

/-- The outcome of `Enroll`. -/
inductive EnrollResult where
  | issued (b : Bundle)
  | pending (requestID : Id)
deriving DecidableEq

/-- For whom an enrollment is made: the caller, or what a token's grant puts in its place. -/
structure Enrollee where
  tenant : Id
  /-- the subject used for issuance -/
  actor : Subjects
  actorID : String
  requesterKind : RequesterKind

/-- The caller as the platform has authenticated it. -/
def callerEnrollee (subj : Subjects) : Enrollee :=
  ⟨subj.tenantID, subj, subj.actorID, if subj.service ≠ "" then .service else .user⟩

/-- The identity asked for, in the tenant of the grant. -/
def grantEnrollee (grant : EnrollGrant) (spiffeID : String) : Enrollee :=
  ⟨grant.tenantID, serviceSubjects grant.tenantID spiffeID, spiffeID, .token⟩

/-- `refuse`. The ids of a tenant are never empty here, so the event is always recorded. -/
def refuse (tenant : Id) (kind actorID reason : String) : Svc Unit :=
  emit ⟨tenant, .enrollmentRefused, kind, actorID, none, .refused, reason⟩

/-- The part of `Enroll` that verifies the token. -/
def resolveEnrollee (V : TokenVerifier) (subj : Subjects) (input : EnrollInput)
    (sid : SPIFFEID) : Svc (Except Rejection Enrollee) :=
  if input.enrollmentToken = "" then pure (.ok (callerEnrollee subj))
  else do
    let verdict ← ask (fun e => V e input.enrollmentToken) fun _ => .look
    match verdict with
    | .error .unavailable => pure (.error .unavailable)
    | .error err =>
      -- a verdict without a known reason stays opaque
      let re := match err with
        | .refusal re => if re.tokenRefused then re else ⟨.tokenInvalid, []⟩
        | _ => ⟨.tokenInvalid, []⟩
      refuse subj.tenantID subj.actorKind subj.actorID
        ("enrollment token rejected: " ++ re.reason.text)
      pure (.error (.refused re))
    | .ok grant =>
      if grant.authorises input.spiffeID then pure (.ok (grantEnrollee grant input.spiffeID))
      else
        let re := grant.refusal P sid.trustDomain
        refuse grant.tenantID "service" input.spiffeID
          ("token does not authorise the requested identity: " ++ re.reason.text)
        pure (.error (.refused re))

/-- The signing request of an enrollment. -/
def enrollIssueInput (input : EnrollInput) : IssueInput where
  issuerID := none
  spiffeID := input.spiffeID
  csrPEM := input.csrPEM
  subject := ""
  dnsSans := []
  validitySeconds := 0
  deliverKey := input.csrPEM = ""
  retainKey := false

def issueInline (who : Enrollee) (input : EnrollInput) : Svc (Except Rejection EnrollResult) := do
  let r ← attempt (Issue.issue P who.actor (enrollIssueInput input))
  match r with
  | .error e =>
    refuse who.tenant who.actor.actorKind who.actorID "issuance refused"
    fail e
  | .ok b =>
    emit ⟨who.tenant, .enrollmentIssued, who.actor.actorKind, who.actorID,
      some b.certificate.id, .ok, ""⟩
    pure (.ok (.issued b))

/-- Leave a pending request. -/
def applyPending (who : Enrollee) (input : EnrollInput) :
    Svc (Except Rejection EnrollResult) := do
  let r ← createRequest P who.tenant who.actorID who.requesterKind
    ⟨none, input.spiffeID, input.csrPEM, 0, []⟩
  pure (r.map fun row => .pending row.id)

/-- `Enroll`; `autoApprove` is `Config.AutoApprove`. -/
def enroll (V : TokenVerifier) (autoApprove : Bool) (subj : Subjects) (input : EnrollInput) :
    Svc (Except Rejection EnrollResult) := do
  match parseSPIFFEID P input.spiffeID with
  | none => pure (.error (.invalid "spiffe_id" "invalid SPIFFE ID"))
  | some sid =>
    let r ← resolveEnrollee P V subj input sid
    match r with
    | .error e => pure (.error e)
    | .ok who =>
      if input.csrPEM ≠ "" ∧ (parseCSR P input.csrPEM).isNone then
        pure (.error (.invalid "csr" "certificate request rejected"))
      else if autoApprove then issueInline P who input
      else applyPending P who input

/-! ## What is quiet -/

theorem quiet_pinnedIssuer (tenant : Id) (sid : SPIFFEID) (issuerID : Option Id) :
    Quiet (pinnedIssuer tenant sid issuerID) := by
  unfold pinnedIssuer
  split
  · exact only_pure _
  refine only_bind (only_attempt (quiet_fetch (Sql.readOnly_defaultIssuer _ _))) fun r => ?_
  cases r with
  | ok issuer | error e => exact only_pure _

theorem quiet_refuse (tenant : Id) (kind actorID reason : String) :
    Quiet (refuse tenant kind actorID reason) := quiet_emit _

theorem quiet_resolveEnrollee (V : TokenVerifier) (subj : Subjects) (input : EnrollInput)
    (sid : SPIFFEID) : Quiet (resolveEnrollee P V subj input sid) := by
  refine only_ite (only_pure _) (only_bind (quiet_look _) fun verdict => ?_)
  split
  · exact only_pure _
  · exact only_bind (quiet_refuse _ _ _ _) fun _ => only_pure _
  · exact only_ite (only_pure _) (only_bind (quiet_refuse _ _ _ _) fun _ => only_pure _)

end Lcm.Enroll
