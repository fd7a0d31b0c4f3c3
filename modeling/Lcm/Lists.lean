import Lcm.Enrollment

/-!
# Listings by cursor

`ListRequests` and `ListJobs` of `enroll`. The store returns a page of the tenant's rows, newest
first from a cursor on; the service drops the rows the caller may not read. The cursor of the
next page is that of the last row of the page, whether that was dropped or not.
-/

namespace Lcm

open Db Svc

/-! ## The statement -/

/-- A table that is listed newest first, with the columns its listing looks at. -/
structure Listed (ρ : Type) where
  rows : Database → List ρ
  id : ρ → Id
  tenantID : ρ → Id
  status : ρ → String
  createdAt : ρ → Time

def requestTable : Listed CertificateRequest where
  rows s := s.requests.rows
  id := CertificateRequest.id
  tenantID := CertificateRequest.tenantID
  status r := Enroll.requestStatusText r.status
  createdAt := CertificateRequest.createdAt

def jobTable : Listed CertificateJob where
  rows s := s.jobs.rows
  id := CertificateJob.id
  tenantID := CertificateJob.tenantID
  status j := Enroll.jobStatusText j.status
  createdAt := CertificateJob.createdAt

/-- Where a page begins: below a creation time and id, or at the newest row when the time is
zero. -/
structure Position where
  ts : Time
  id : Option Id
deriving DecidableEq

/-- `RequestFilter` and `JobFilter` of the store; an empty status does not restrict them. -/
structure PageFilter where
  status : String
  cursorTS : Time
  cursorID : String
  limit : Nat

namespace Listed

variable {ρ : Type} (T : Listed ρ)

/-- `ORDER BY created_at DESC, id DESC`. -/
def newer : ρ → ρ → Bool := NewestFirst T.createdAt T.id

/-- `$3::timestamptz IS NULL OR (created_at, id) < ($3, $4::uuid)`. A comparison with NULL is no
match. -/
def below (p : Position) (r : ρ) : Bool :=
  p.ts == 0 || decide (T.createdAt r < p.ts) ||
    (T.createdAt r == p.ts && p.id.any fun i => decide (T.id r < i))

/-- The rows a listing selects, before it is cut. -/
def selected (s : Database) (tenantID : Id) (status : String) (p : Position) : List ρ :=
  (T.rows s).filter fun r =>
    T.tenantID r == tenantID && (status == "" || T.status r == status) && T.below p r

end Listed

namespace Sql

variable {ρ : Type} (P : Platform)

/-- `$4::uuid` of `nullIfEmpty`. -/
def uuidParam (text : String) : Except Err (Option Id) :=
  if text = "" then .ok none
  else match P.parseUUID text with
    | some id => .ok (some id)
    | none => .error (.database "invalid input syntax for type uuid")

/-- What `ListRequests` and `ListJobs` share: newest first, below the cursor. -/
def listNewest (T : Listed ρ) (tenantID : Id) (f : PageFilter) : Sql (List ρ) :=
  Tx.query fun db => do
    let cursorID ← uuidParam P f.cursorID
    pure ((sortRows T.newer (T.selected db tenantID f.status ⟨f.cursorTS, cursorID⟩)).take f.limit)

def listRequests (tenantID : Id) (f : PageFilter) : Sql (List CertificateRequest) :=
  listNewest P requestTable tenantID f

def listJobs (tenantID : Id) (f : PageFilter) : Sql (List CertificateJob) :=
  listNewest P jobTable tenantID f

end Sql

namespace Enroll

variable (P : Platform)

/-! ## Views -/

/-- A request as clients see it, without the text of its CSR. -/
structure RequestView where
  id : Id
  kind : CertKind
  spiffeID : String
  issuerID : Option Id
  status : RequestStatus
  sans : List String
  validitySeconds : Int
  requestedBy : String
  requesterKind : RequesterKind
  approver : String
  reason : String
  hasCSR : Bool
  certificateID : Option Id
  createdAt : Time
deriving DecidableEq

def requestView (r : CertificateRequest) : RequestView where
  id := r.id
  kind := r.kind.getD .svid
  spiffeID := r.spiffeID
  issuerID := r.issuerID
  status := r.status
  sans := r.sans
  validitySeconds := r.validitySeconds
  requestedBy := r.requestedBy
  requesterKind := r.requesterKind
  approver := r.approver.getD ""
  reason := r.reason.getD ""
  hasCSR := r.csrPEM.isSome
  certificateID := r.certificateID
  createdAt := r.createdAt

/-- A job as clients see it, without its lease. -/
structure JobView where
  id : Id
  requestID : Id
  type : JobType
  status : JobStatus
  attempts : Nat
  maxAttempts : Nat
  resultCertificateID : Option Id
  error : String
  runAfter : Time
  createdAt : Time
deriving DecidableEq

def jobView (j : CertificateJob) : JobView where
  id := j.id
  requestID := j.requestID
  type := j.type
  status := j.status
  attempts := j.attempts
  maxAttempts := j.maxAttempts
  resultCertificateID := j.resultCertificateID
  error := j.error.getD ""
  runAfter := j.runAfter
  createdAt := j.createdAt

/-! ## Cursors -/

def encodeCursor (ts : Time) (id : Id) : String := P.formatTime ts ++ "|" ++ P.uuidText id

/-- The text before the first bar that is not its first character, and the text behind it. -/
def splitCursor : List Char → Option (List Char × List Char)
  | [] => none
  | c :: cs =>
    match cs.dropWhile (· != '|') with
    | [] => none
    | _ :: id => some (c :: cs.takeWhile (· != '|'), id)

def decodeCursor (c : String) : Except Rejection (Time × String) :=
  if c = "" then .ok (0, "")
  else match splitCursor c.toList with
    | none => .error (.invalid "cursor" "bad cursor")
    | some (ts, id) =>
      match P.parseTime (String.ofList ts) with
      | none => .error (.invalid "cursor" "bad cursor")
      | some ts => .ok (ts, String.ofList id)

/-! ## The service -/

/-- `RequestFilter` and `JobFilter`. -/
structure ListFilter where
  status : String
  cursor : String
  limit : Int

/-- The page size; out of range is 50. -/
def pageLimit (limit : Int) : Nat := if limit ≤ 0 ∨ limit > 100 then 50 else limit.toNat

variable {ρ υ : Type}

/-- The loop over the page. -/
def readable (authorize : ρ → Svc Unit) (view : ρ → υ) : List ρ → Svc (List υ)
  | [] => pure []
  | r :: rows => do
    let allowed ← attempt (authorize r)
    let out ← readable authorize view rows
    match allowed with
    | .ok () => pure (view r :: out)
    | .error _ => pure out

/-- The cursor behind a full page. -/
def nextCursor (T : Listed ρ) (limit : Nat) (rows : List ρ) : String :=
  if rows.length = limit then
    match rows.getLast? with
    | some last => encodeCursor P (T.createdAt last) (T.id last)
    | none => ""
  else ""

/-- What `ListRequests` and `ListJobs` share. -/
def listPage (T : Listed ρ) (authorize : ρ → Svc Unit) (view : ρ → υ) (subj : Subjects)
    (f : ListFilter) : Svc (Except Rejection (List υ × String)) :=
  match decodeCursor P f.cursor with
  | .error e => pure (.error e)
  | .ok (ts, id) => do
    let limit := pageLimit f.limit
    let rows ← fetch (Sql.listNewest P T subj.tenantID ⟨f.status, ts, id, limit⟩)
    let out ← readable authorize view rows
    pure (.ok (out, nextCursor P T limit rows))

def listRequests (subj : Subjects) (f : ListFilter) :
    Svc (Except Rejection (List RequestView × String)) :=
  listPage P requestTable (authorizeReadRequest P subj) requestView subj f

def listJobs (subj : Subjects) (f : ListFilter) :
    Svc (Except Rejection (List JobView × String)) :=
  listPage P jobTable (fun j => authorizeJob P subj j .read) jobView subj f

end Enroll

end Lcm
