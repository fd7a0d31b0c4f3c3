import Lcm.Platform
import Lcm.Db.Order

/-!
# The statements of the SQL repository

One definition per function of the repository, as the code of a transaction (`Sql`). Every
statement is scoped to a tenant, except the two that run in system scope (`claimDueJobs`,
`dueForRenewal`). Foreign keys are checked against the whole table, as the database does;
everything else sees the tenant's rows only.

`updateRow_ok` and `insertRow_ok` say what a successful write has done; every statement that
writes one row is one of the two.
-/

namespace Lcm

open Db

/-- The code of a transaction on the lcm database. -/
abbrev Sql (α : Type) := Tx Env Database Err α

/-- A row, or `store.ErrNotFound`. -/
def found {α : Type} : Option α → Except Err α
  | some a => .ok a
  | none => .error .notFound

@[simp] theorem found_eq_ok {α : Type} {o : Option α} {a : α} : found o = .ok a ↔ o = some a := by
  cases o <;> simp [found]

theorem bind_eq_ok {ε α β : Type} {x : Except ε α} {f : α → Except ε β} {b : β} :
    (x >>= f) = .ok b ↔ ∃ a, x = .ok a ∧ f a = .ok b := by
  cases x with
  | ok a => exact ⟨fun h => ⟨a, rfl, h⟩, fun ⟨_, ha, h⟩ => Except.ok.inj ha ▸ h⟩
  | error e => exact ⟨nofun, nofun⟩

variable {i e : Env} {id : Id} {ss ss' : Session Database} {g r : Grant}

namespace Sql

section Rows

variable {ρ : Type} {key : ρ → Id} (get : Database → Table key)
  (set : Database → Table key → Database) (tenant : ρ → Id)

/-- `UPDATE … WHERE tenant_id = $1 AND id = $2`; no row is `ErrNotFound`. -/
def updateRow (tenantID id : Id) (f : ρ → ρ) (hf : ∀ r, key (f r) = key r) : Sql Unit :=
  Tx.stmt fun db =>
    match ((get db).get? id).filter fun r => tenant r == tenantID with
    | none => .missed .notFound
    | some _ => .done (set db ((get db).update id f hf)) ()

/-- `DELETE … WHERE tenant_id = $1 AND id = $2`; no row is `ErrNotFound`. -/
def deleteRow (tenantID id : Id) : Sql Unit :=
  Tx.stmt fun db =>
    match ((get db).get? id).filter fun r => tenant r == tenantID with
    | none => .missed .notFound
    | some _ => .done (set db ((get db).filter fun r => !(key r == id))) ()

/-- `INSERT`; a constraint of the table or a duplicate id is a violation, reported as `e`. -/
def insertRow (violates : Database → Bool) (e : Err) (r : ρ) : Sql Unit :=
  Tx.stmt fun db =>
    if violates db then .violated e
    else match (get db).insert? r with
      | none => .violated e
      | some t => .done (set db t) ()

variable {get set tenant} {tenantID : Id}

theorem updateRow_ok {f : ρ → ρ} {hf : ∀ r, key (f r) = key r} :
    updateRow get set tenant tenantID id f hf i ss = (.ok (), ss') ↔
      ss.aborted = false ∧ (∃ r, (get ss.db).get? id = some r ∧ tenant r = tenantID) ∧
        ss' = { ss with db := set ss.db ((get ss.db).update id f hf) } := by
  unfold updateRow
  rw [Tx.stmt_ok]
  refine and_congr_right fun _ => ?_
  cases hr : ((get ss.db).get? id).filter fun r => tenant r == tenantID with
  | none =>
    simp only [reduceCtorEq, false_and, exists_false, false_iff, not_and]
    rintro ⟨r, hr', ht⟩
    simp [hr', ht] at hr
  | some r =>
    rw [Option.filter_eq_some_iff] at hr
    constructor
    · rintro ⟨db, hdb, rfl⟩
      cases hdb
      exact ⟨⟨r, hr.1, by simpa using hr.2⟩, rfl⟩
    · rintro ⟨_, rfl⟩
      exact ⟨_, rfl, rfl⟩

theorem deleteRow_ok : deleteRow get set tenant tenantID id i ss = (.ok (), ss') →
      ss.aborted = false ∧ (∃ r, (get ss.db).get? id = some r ∧ tenant r = tenantID) ∧
        ss' = { ss with db := set ss.db ((get ss.db).filter fun r => !(key r == id)) } := by
  intro h
  obtain ⟨hab, db, hdb, rfl⟩ := Tx.stmt_ok.1 h
  split at hdb
  · cases hdb
  rename_i r hr
  cases hdb
  rw [Option.filter_eq_some_iff] at hr
  exact ⟨hab, ⟨r, hr.1, by simpa using hr.2⟩, rfl⟩

theorem insertRow_ok {violates : Database → Bool} {e : Err} {r : ρ}
    (h : insertRow get set violates e r i ss = (.ok (), ss')) :
    ss.aborted = false ∧ violates ss.db = false ∧ ∃ t, (get ss.db).insert? r = some t ∧
      ss' = { ss with db := set ss.db t } := by
  obtain ⟨hab, db, hdb, rfl⟩ := Tx.stmt_ok.1 h
  split at hdb
  · cases hdb
  rename_i hv
  split at hdb
  · cases hdb
  rename_i t ht
  cases hdb
  exact ⟨hab, by simpa using hv, t, ht, rfl⟩

end Rows

/-- The rows in the order of a query by more than one column. -/
def sortRows {ρ : Type} (less : ρ → ρ → Bool) (l : List ρ) : List ρ :=
  l.insertionSort fun a b => less b a = false

/-- `ORDER BY lower(name), id`. -/
def NameBefore {ρ : Type} (P : Platform) (name : ρ → String) (id : ρ → Id) (a b : ρ) : Bool :=
  P.sqlLess (P.sqlLower (name a)) (P.sqlLower (name b)) ||
    (P.sqlLower (name a) == P.sqlLower (name b) && decide (id a < id b))

/-- The text has the length a CHECK of its column asks for. -/
def lengthBetween (lo hi : Nat) (s : String) : Bool :=
  decide (lo ≤ s.length) && decide (s.length ≤ hi)

/-- The error of a CHECK constraint. -/
def checkViolation : Err := .database "new row violates check constraint"

/-- `INSERT` into a table with CHECK constraints, which are looked at first. -/
def checked (ok : Bool) (m : Sql Unit) : Sql Unit :=
  if ok then m else Tx.stmt fun _ => .violated checkViolation

theorem checked_ok {ok : Bool} {m : Sql Unit} (h : checked ok m i ss = (.ok (), ss')) :
    ok = true ∧ m i ss = (.ok (), ss') := by
  unfold checked at h
  split at h
  · next hok => exact ⟨hok, h⟩
  · obtain ⟨-, db, hdb, -⟩ := Tx.stmt_ok.1 h
    cases hdb

/-! ## Issuers and CAs -/

/-- The issuer meets the CHECK constraints of its table. -/
def issuerChecks (i : Issuer) : Bool :=
  lengthBetween 1 100 i.name && lengthBetween 1 253 i.trustDomain

/-- A bad CA, a name the tenant already has, or a second default of a trust domain. -/
def issuerClash (P : Platform) (i : Issuer) (db : Database) : Bool :=
  (i.caID.any fun ca => (db.cas.get? ca).isNone) ||
    db.issuers.rows.any fun o => o.id != i.id && o.tenantID == i.tenantID &&
      (P.sqlLower o.name == P.sqlLower i.name ||
        (o.isDefault && i.isDefault && o.trustDomain == i.trustDomain))

def insertIssuer (P : Platform) (i : Issuer) : Sql Unit :=
  checked (issuerChecks i) (insertRow Database.issuers (fun db t => { db with issuers := t })
    (issuerClash P i) .conflict { i with updatedBy := i.createdBy })

def updateIssuer (P : Platform) (i : Issuer) : Sql Unit :=
  Tx.stmt fun db =>
    match (db.issuers.get? i.id).filter fun o => o.tenantID == i.tenantID with
    | none => .missed .notFound
    | some _ =>
      if !issuerChecks i then .violated checkViolation
      else if issuerClash P i db then .violated .conflict
      else .done { db with issuers := db.issuers.update i.id i.write fun _ => rfl } ()

/-- By name, after the given one. -/
def listIssuers (P : Platform) (tenantID : Id) (afterName : String) (limit : Nat) :
    Sql (List Issuer) :=
  Tx.query fun db => .ok ((sortRows (NameBefore P Issuer.name Issuer.id)
    (db.issuers.rows.filter fun i => i.tenantID == tenantID &&
      P.sqlLess (P.sqlLower afterName) (P.sqlLower i.name))).take limit)

def getIssuer (tenantID id : Id) : Sql Issuer :=
  Tx.query fun db => found ((db.issuers.get? id).filter fun i => i.tenantID == tenantID)

def defaultIssuer (tenantID : Id) (trustDomain : String) : Sql Issuer :=
  Tx.query fun db => found (db.issuers.rows.find? fun i =>
    i.tenantID == tenantID && i.trustDomain == trustDomain && i.isDefault)

/-- The row of `GetIssuer` with its certificate count, which most callers do not look at. -/
def countedIssuer (tenantID id : Id) : Sql (Issuer × Nat) :=
  Tx.query fun db => match (db.issuers.get? id).filter fun i => i.tenantID == tenantID with
    | none => .error .notFound
    | some i => .ok (i, (db.certificates.rows.filter fun c =>
      c.issuerID == id && c.tenantID == tenantID).length)

/-- The issuer without its default flag, if it is another default of the trust domain. -/
def undefault (tenantID : Id) (trustDomain : String) (exceptID : Id) (i : Issuer) : Issuer :=
  if i.tenantID == tenantID && i.trustDomain == trustDomain && i.isDefault && i.id != exceptID
  then { i with isDefault := false } else i

theorem undefault_id (t : Id) (td : String) (id : Id) (i : Issuer) :
    (undefault t td id i).id = i.id := by
  unfold undefault
  split <;> rfl

def clearDefaultIssuer (tenantID : Id) (trustDomain : String) (exceptID : Id) : Sql Unit :=
  Tx.stmt fun db => .done { db with
    issuers := db.issuers.map (undefault tenantID trustDomain exceptID)
      (undefault_id tenantID trustDomain exceptID) } ()

/-- The request without its issuer, if that is the given one. -/
def unpin (issuerID : Id) (r : CertificateRequest) : CertificateRequest :=
  if r.issuerID = some issuerID then { r with issuerID := none } else r

theorem unpin_id (issuerID : Id) (r : CertificateRequest) : (unpin issuerID r).id = r.id := by
  unfold unpin
  split <;> rfl

/-- Certificates of the issuer refuse the deletion; requests that name it lose it, whichever
tenant they belong to. -/
def deleteIssuer (tenantID id : Id) : Sql Unit :=
  Tx.stmt fun db =>
    match (db.issuers.get? id).filter fun i => i.tenantID == tenantID with
    | none => .missed .notFound
    | some _ =>
      if db.certificates.rows.any fun c => c.issuerID == id then .violated .conflict
      else .done { db with
        issuers := db.issuers.filter fun i => !(i.id == id)
        requests := db.requests.map (unpin id) (unpin_id id) } ()

/-- A second active CA of the trust domain. -/
def caClash (c : CA) (db : Database) : Bool :=
  c.state == .active && db.cas.rows.any fun o =>
    o.tenantID == c.tenantID && o.trustDomain == c.trustDomain && o.state == .active

def insertCA (c : CA) : Sql Unit := do
  let now ← Tx.ask Env.dbNow
  checked (lengthBetween 1 253 c.trustDomain)
    (insertRow Database.cas (fun db t => { db with cas := t }) (caClash c) .conflict
      { c with createdAt := now })

def getCA (tenantID id : Id) : Sql CA :=
  Tx.query fun db => found ((db.cas.get? id).filter fun c => c.tenantID == tenantID)

/-- The CAs of a trust domain, newest first. -/
def casForDomain (tenantID : Id) (trustDomain : String) : Sql (List CA) := do
  let tie ← Tx.ask Env.tie
  Tx.query fun db => .ok (orderBy (fun c => -c.createdAt) (fun c => tie c.id)
    (db.cas.rows.filter fun c => c.tenantID == tenantID && c.trustDomain == trustDomain))

/-- The newest CA of a trust domain in the given state. -/
def caByState (tenantID : Id) (trustDomain : String) (state : CAState) : Sql CA := do
  let tie ← Tx.ask Env.tie
  Tx.query fun db => found (orderBy (fun c => -c.createdAt) (fun c => tie c.id)
    (db.cas.rows.filter fun c =>
      c.tenantID == tenantID && c.trustDomain == trustDomain && c.state == state)).head?

/-! ## Requests -/

def insertRequest (r : CertificateRequest) : Sql Unit := do
  let now ← Tx.ask Env.dbNow
  insertRow Database.requests (fun db t => { db with requests := t })
    -- a bad issuer_id
    (fun db => match r.issuerID with
      | none => false
      | some i => (db.issuers.get? i).isNone)
    .conflict (r.stored now)

def getRequest (tenantID id : Id) : Sql CertificateRequest :=
  Tx.query fun db => found (db.request? tenantID id)

def updateRequestRow (tenantID id : Id) (f : CertificateRequest → CertificateRequest)
    (hf : ∀ r, (f r).id = r.id) : Sql Unit :=
  updateRow Database.requests (fun db t => { db with requests := t })
    CertificateRequest.tenantID tenantID id f hf

def setRequestStatus (tenantID id : Id) (status : RequestStatus)
    (approver reason : Option String) : Sql Unit :=
  updateRequestRow tenantID id (fun r => r.setStatus status approver reason) fun _ => rfl

def completeRequest (tenantID id : Id) (status : RequestStatus) (certificateID : Option Id)
    (reason : Option String) : Sql Unit :=
  updateRequestRow tenantID id (fun r => { r with status, certificateID, reason }) fun _ => rfl

/-! ## Jobs -/

def insertJob (j : CertificateJob) : Sql Unit := do
  let now ← Tx.ask Env.dbNow
  insertRow Database.jobs (fun db t => { db with jobs := t }) (fun _ => false)
    (.database "duplicate key value violates unique constraint") { j with createdAt := now }

def getJob (tenantID id : Id) : Sql CertificateJob :=
  Tx.query fun db => found (db.job? tenantID id)

def updateJob (j : CertificateJob) : Sql Unit :=
  updateRow Database.jobs (fun db t => { db with jobs := t }) CertificateJob.tenantID
    j.tenantID j.id j.write fun _ => rfl

/-- The job may be claimed at `now`. -/
def Claimable (now : Time) (j : CertificateJob) : Bool :=
  j.status == .queued && decide (j.runAfter ≤ now) && j.leaseUntil.all fun t => decide (t < now)

/-- Lease due queued jobs of all tenants, oldest first, and return them as leased. -/
def claimDueJobs (now : Time) (lease : Duration) (limit : Nat) : Sql (List CertificateJob) := do
  let tie ← Tx.ask Env.tie
  Tx.stmt fun db =>
    let due := (orderBy CertificateJob.runAfter (fun j => tie j.id)
      (db.jobs.rows.filter (Claimable now))).take limit
    .done { db with
        jobs := db.jobs.map
          (fun j => if j ∈ due then j.claim (now + lease) else j)
          fun j => by split <;> rfl }
      (due.map fun j => j.claim (now + lease))

/-! ## Certificates -/

def insertCertificate (c : IssuedCertificate) : Sql Unit := do
  let now ← Tx.ask Env.dbNow
  -- the empty SPIFFE ID is stored as NULL
  checked (lengthBetween 0 2048 c.spiffeID)
    (insertRow Database.certificates (fun db t => { db with certificates := t })
      -- a bad issuer_id, or a serial the tenant already has
      (fun db => (db.issuers.get? c.issuerID).isNone ||
        db.certificates.rows.any fun o => o.tenantID == c.tenantID && o.serial == c.serial)
      .conflict (c.stored now))

theorem insertCertificate_ok {c : IssuedCertificate} (h : insertCertificate c e ss = (.ok (), ss'))
    : (ss.db.issuers.get? c.issuerID).isSome ∧
      (∀ o ∈ ss.db.certificates.rows, o.tenantID = c.tenantID → o.serial ≠ c.serial) ∧
      ∃ now t, ss.db.certificates.insert? (c.stored now) = some t ∧
        ss'.db = { ss.db with certificates := t } := by
  obtain ⟨now, ss0, hask, hins⟩ := Tx.bind_ok.1 h
  obtain ⟨-, rfl⟩ := Tx.ask_ok.1 hask
  obtain ⟨-, hv, t, ht, rfl⟩ := insertRow_ok (checked_ok hins).2
  simp only [Bool.or_eq_false_iff, Option.isNone_eq_false_iff, List.any_eq_false,
    Bool.and_eq_true, beq_iff_eq, not_and] at hv
  exact ⟨hv.1, hv.2, now, t, ht, rfl⟩

def getCertificate (tenantID id : Id) : Sql IssuedCertificate :=
  Tx.query fun db => found (db.certificate? tenantID id)

/-- `ORDER BY created_at DESC, id DESC`. -/
def NewerCertificate (a b : IssuedCertificate) : Bool :=
  decide (b.createdAt < a.createdAt) || (a.createdAt == b.createdAt && decide (b.id < a.id))

/-- The certificate is one the filter shows; the zero time and the empty id are sent as NULL. -/
def Shown (f : CertificateFilter) (c : IssuedCertificate) : Bool :=
  (f.issuerID.all fun i => c.issuerID == i) && (f.spiffeID == "" || c.spiffeID == f.spiffeID) &&
    (f.status.all fun s => c.status == s) &&
    (f.cursorTS == 0 || decide (c.createdAt < f.cursorTS) ||
      (c.createdAt == f.cursorTS && f.cursorID.any fun i => decide (c.id < i)))

/-- Newest first, below the cursor. -/
def listCertificates (tenantID : Id) (f : CertificateFilter) : Sql (List IssuedCertificate) :=
  Tx.query fun db => .ok ((sortRows NewerCertificate
    (db.certificates.rows.filter fun c => c.tenantID == tenantID && Shown f c)).take f.limit)

def updateCertificateRow (tenantID id : Id) (f : IssuedCertificate → IssuedCertificate)
    (hf : ∀ c, (f c).id = c.id) : Sql Unit :=
  updateRow Database.certificates (fun db t => { db with certificates := t })
    IssuedCertificate.tenantID tenantID id f hf

theorem updateCertificateRow_ok {t : Id} {f : IssuedCertificate → IssuedCertificate}
    {hf : ∀ c, (f c).id = c.id} (h : updateCertificateRow t id f hf e ss = (.ok (), ss')) :
    (ss.db.certificate? t id).isSome ∧ ss'.db = ss.db.mapCertificate id f hf := by
  obtain ⟨-, ⟨c, hc, ht⟩, rfl⟩ := updateRow_ok.1 h
  refine ⟨?_, rfl⟩
  simp [Database.certificate?, hc, ht]

def updateCertificate (c : IssuedCertificate) : Sql Unit :=
  updateCertificateRow c.tenantID c.id c.write fun _ => rfl

def setCertificateStatus (tenantID id : Id) (status : CertStatus) (supersededBy : Option Id) :
    Sql Unit :=
  updateCertificateRow tenantID id (fun c => c.setStatus status supersededBy) fun _ => rfl

def markKeyDelivered (tenantID id : Id) : Sql Unit :=
  updateCertificateRow tenantID id IssuedCertificate.delivered fun _ => rfl

def deleteCertificate (tenantID id : Id) : Sql Unit :=
  deleteRow Database.certificates (fun db t => { db with certificates := t })
    IssuedCertificate.tenantID tenantID id

/-- The certificate is live, renews automatically and expires in the given window. -/
def DueBy (now notAfterBefore : Time) (c : IssuedCertificate) : Bool :=
  (c.status == .active || c.status == .expiring) && c.supersededBy.isNone && c.autoRenew &&
    decide (now < c.notAfter) && decide (c.notAfter ≤ notAfterBefore)

/-- The certificates of all tenants that expire in the window, soonest first. The row locks
end with the transaction that runs the query, so they are not part of the model. -/
def dueForRenewal (now notAfterBefore : Time) (limit : Nat) : Sql (List IssuedCertificate) := do
  let tie ← Tx.ask Env.tie
  Tx.query fun db => .ok ((orderBy IssuedCertificate.notAfter (fun c => tie c.id)
    (db.certificates.rows.filter (DueBy now notAfterBefore))).take limit)

/-! ## Revocations, log and grants -/

def insertRevocation (r : Revocation) : Sql Unit :=
  insertRow Database.revocations (fun db t => { db with revocations := t })
    -- a second revocation of the certificate
    (fun db => db.revocations.rows.any fun o =>
      o.tenantID == r.tenantID && o.certificateID == r.certificateID)
    .conflict r

/-- The revocations a page with this cursor may show; the zero time is sent as NULL. -/
def RevokedBefore (tenantID : Id) (cursor : Time) (r : Revocation) : Bool :=
  r.tenantID == tenantID && (cursor == 0 || decide (r.revokedAt < cursor))

/-- Newest first, below the cursor. -/
def listRevocations (tenantID : Id) (cursor : Time) (limit : Nat) : Sql (List Revocation) := do
  let tie ← Tx.ask Env.tie
  Tx.query fun db => .ok ((orderBy (fun r => -r.revokedAt) (fun r => tie r.id)
    (db.revocations.rows.filter (RevokedBefore tenantID cursor))).take limit)

def insertCertLog (rows : List CertLogRow) : Sql Unit :=
  Tx.stmt fun db => .done { db with certLog := db.certLog ++ rows } ()

/-- The columns of the unique index on grants. -/
def SameGrant (g o : Grant) : Bool :=
  o.tenantID == g.tenantID && o.resourceType == g.resourceType && o.resourceID == g.resourceID &&
    o.subjectType == g.subjectType && o.subjectID == g.subjectID

/-- `INSERT … ON CONFLICT DO UPDATE`: a grant to the same subject is replaced in place. -/
def upsertGrant (g : Grant) : Sql Grant := do
  let now ← Tx.ask Env.dbNow
  let g := { g with grantedAt := now }
  Tx.stmt fun db =>
    match db.grants.rows.find? (SameGrant g) with
    | some o =>
      .done { db with grants := db.grants.update o.id g.write fun _ => rfl } (g.write o)
    | none =>
      match db.grants.insert? g with
      | none => .violated (.database "duplicate key value violates unique constraint")
      | some t => .done { db with grants := t } g

theorem upsertGrant_ok (h : upsertGrant g e ss = (.ok r, ss')) :
    (∃ o, ss.db.grants.rows.find? (SameGrant g) = some o ∧
        r = ({ g with grantedAt := e.dbNow } : Grant).write o ∧
        ss'.db = { ss.db with
          grants := ss.db.grants.update o.id ({ g with grantedAt := e.dbNow } : Grant).write
            fun _ => rfl }) ∨
      ss.db.grants.rows.find? (SameGrant g) = none ∧ r = { g with grantedAt := e.dbNow } ∧
        ∃ t, ss.db.grants.insert? r = some t ∧ ss'.db = { ss.db with grants := t } := by
  obtain ⟨now, ss1, hask, h⟩ := Tx.bind_ok.1 h
  obtain ⟨rfl, rfl⟩ := Tx.ask_ok.1 hask
  obtain ⟨-, db, hdb, rfl⟩ := Tx.stmt_ok.1 h
  split at hdb
  · next o ho =>
    cases hdb
    exact .inl ⟨o, ho, rfl, rfl⟩
  rename_i hnone
  split at hdb
  · cases hdb
  rename_i t ht
  cases hdb
  exact .inr ⟨hnone, rfl, t, ht, rfl⟩

theorem upsertGrant_rows (h : upsertGrant g e ss = (.ok r, ss')) :
    ∃ table, ss'.db = { ss.db with grants := table } ∧ ∀ o ∈ table.rows,
      o ∈ ss.db.grants.rows ∨
        SameGrant g o ∧ o.relation = g.relation ∧ o.expiresAt = g.expiresAt := by
  rcases upsertGrant_ok h with ⟨o, ho, -, hdb⟩ | ⟨-, rfl, table, hins, hdb⟩
  · refine ⟨_, hdb, ?_⟩
    intro x hx
    obtain ⟨y, hy, rfl⟩ := List.mem_map.1 hx
    split
    · next hkey =>
      -- the rewritten row is the one found
      obtain rfl := ss.db.grants.eq_of_key_eq hy (List.mem_of_find?_eq_some ho) hkey
      have hsame : SameGrant g y := List.find?_some ho
      exact .inr ⟨hsame, rfl, rfl⟩
    · exact .inl hy
  · refine ⟨table, hdb, ?_⟩
    intro x hx
    rw [(Table.insert?_eq_some hins).2, List.mem_append, List.mem_singleton] at hx
    rcases hx with hx | rfl
    · exact .inl hx
    · exact .inr ⟨by simp [SameGrant], rfl, rfl⟩

/-- Oldest first. -/
def grantsOnResource (tenantID : Id) (resourceType : ResourceType) (resourceID : Id) :
    Sql (List Grant) := do
  let tie ← Tx.ask Env.tie
  Tx.query fun db => .ok (orderBy Grant.grantedAt (fun g => tie g.id)
    (db.grants.rows.filter fun g =>
      g.tenantID == tenantID && g.resourceType == resourceType && g.resourceID == resourceID))

/-- The unexpired grants held by any of the subjects, oldest first. -/
def grantsForSubjects (tenantID : Id) (userID : String) (roles : List String) (now : Time) :
    Sql (List Grant) := do
  let tie ← Tx.ask Env.tie
  Tx.query fun db => .ok (orderBy Grant.grantedAt (fun g => tie g.id)
    (db.grants.rows.filter fun g =>
      g.tenantID == tenantID &&
        (match g.subjectType with
          | .user => g.subjectID == userID
          | .role => roles.contains g.subjectID
          | .tenant => true) &&
        g.expiresAt.all fun t => decide (now < t)))

def getGrant (tenantID id : Id) : Sql Grant :=
  Tx.query fun db => found ((db.grants.get? id).filter fun g => g.tenantID == tenantID)

def deleteGrant (tenantID id : Id) : Sql Unit :=
  deleteRow Database.grants (fun db t => { db with grants := t }) Grant.tenantID tenantID id

def deleteGrantsOfResource (tenantID : Id) (resourceType : ResourceType) (resourceID : Id) :
    Sql Unit :=
  Tx.stmt fun db => .done { db with
    grants := db.grants.filter fun g =>
      !(g.tenantID == tenantID && g.resourceType == resourceType && g.resourceID == resourceID) } ()

/-! ## Tenant secrets -/

/-- A name the tenant already has. -/
def secretClash (P : Platform) (s : TenantSecret) (db : Database) : Bool :=
  db.secrets.rows.any fun o =>
    o.id != s.id && o.tenantID == s.tenantID && P.sqlLower o.name == P.sqlLower s.name

def insertSecret (P : Platform) (s : TenantSecret) : Sql Unit :=
  checked (lengthBetween 1 100 s.name) (insertRow Database.secrets
    (fun db t => { db with secrets := t }) (secretClash P s) .conflict
    { s with updatedBy := s.createdBy })

def secretByName (P : Platform) (tenantID : Id) (name : String) : Sql TenantSecret :=
  Tx.query fun db => found (db.secrets.rows.find? fun s =>
    s.tenantID == tenantID && P.sqlLower s.name == P.sqlLower name)

/-- By name, at most a thousand. -/
def listSecrets (P : Platform) (tenantID : Id) : Sql (List TenantSecret) :=
  Tx.query fun db => .ok ((sortRows (NameBefore P TenantSecret.name TenantSecret.id)
    (db.secrets.rows.filter fun s => s.tenantID == tenantID)).take 1000)

def updateSecret (P : Platform) (s : TenantSecret) : Sql Unit :=
  Tx.stmt fun db =>
    match (db.secrets.get? s.id).filter fun o => o.tenantID == s.tenantID with
    | none => .missed .notFound
    | some _ =>
      if !lengthBetween 1 100 s.name then .violated checkViolation
      else if secretClash P s db then .violated .conflict
      else .done { db with secrets := db.secrets.update s.id s.write fun _ => rfl } ()

def getSecret (tenantID id : Id) : Sql TenantSecret :=
  Tx.query fun db => found ((db.secrets.get? id).filter fun s => s.tenantID == tenantID)

/-! ## Webhooks and deployment targets -/

/-- A name the tenant already has in the table. -/
def nameClash {ρ : Type} {key : ρ → Id} (P : Platform) (get : Database → Table key)
    (tenant : ρ → Id) (name : ρ → String) (r : ρ) (db : Database) : Bool :=
  (get db).rows.any fun o =>
    key o != key r && tenant o == tenant r && P.sqlLower (name o) == P.sqlLower (name r)

/-- By name, at most a thousand. -/
def listByName {ρ : Type} {key : ρ → Id} (P : Platform) (get : Database → Table key)
    (tenant : ρ → Id) (name : ρ → String) (tenantID : Id) : Sql (List ρ) :=
  Tx.query fun db => .ok ((sortRows (NameBefore P name key)
    ((get db).rows.filter fun r => tenant r == tenantID)).take 1000)

def insertWebhook (P : Platform) (w : WebhookEndpoint) : Sql Unit := do
  let now ← Tx.ask Env.dbNow
  checked (lengthBetween 1 100 w.name && lengthBetween 0 2048 w.url)
    (insertRow Database.webhooks (fun db t => { db with webhooks := t })
      (nameClash P Database.webhooks WebhookEndpoint.tenantID WebhookEndpoint.name w) .conflict
      { w with updatedBy := w.createdBy, createdAt := now })

def getWebhook (tenantID id : Id) : Sql WebhookEndpoint :=
  Tx.query fun db => found ((db.webhooks.get? id).filter fun w => w.tenantID == tenantID)

def listWebhooks (P : Platform) (tenantID : Id) : Sql (List WebhookEndpoint) :=
  listByName P Database.webhooks WebhookEndpoint.tenantID WebhookEndpoint.name tenantID

def insertTarget (P : Platform) (t : DeploymentTarget) : Sql Unit := do
  let now ← Tx.ask Env.dbNow
  checked (lengthBetween 1 100 t.name && ["file", "pull", "webhook"].contains t.kind)
    (insertRow Database.targets (fun db rows => { db with targets := rows })
      (nameClash P Database.targets DeploymentTarget.tenantID DeploymentTarget.name t) .conflict
      { t with updatedBy := t.createdBy, createdAt := now })

def getTarget (tenantID id : Id) : Sql DeploymentTarget :=
  Tx.query fun db => found ((db.targets.get? id).filter fun t => t.tenantID == tenantID)

def listTargets (P : Platform) (tenantID : Id) : Sql (List DeploymentTarget) :=
  listByName P Database.targets DeploymentTarget.tenantID DeploymentTarget.name tenantID

/-! ## Random values -/

/-- A fresh id, drawn inside a transaction. -/
def newID : Sql Id := Tx.draw Env.newID

/-- Fresh nonces, drawn inside a transaction. -/
def newNonce : Sql Nat := Tx.draw fun e n => e.nonce + n

end Sql

end Lcm
