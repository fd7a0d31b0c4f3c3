import Lcm.Db.Window
import Lcm.Access
import Lcm.Issue.Issuers

/-!
# List pages

The pages of `store/pages.go` and the services over them: the rows that match the filter and
that the caller may read are counted, and one page of them is shown. `listCertificates` is the
older listing by a cursor, and `tenantStats` counts what is stored.

The library of the page requests is not part of this repository: it is `Platform.listQuery`.
-/

namespace Lcm

open Db Svc

variable (P : Platform)

/-! ## The statements -/

/-- `Visible`: the records a caller may read; `all` lifts the restriction. -/
structure Visible where
  all : Bool
  ids : List Id

/-- `visibleCond`. -/
def Visible.shows (v : Visible) (id : Id) : Bool := v.all || v.ids.contains id

structure Page (υ : Type) where
  items : List υ
  total : Nat
  applied : PageRequest

def certStatusText : CertStatus → String
  | .active => "active"
  | .expiring => "expiring"
  | .expired => "expired"
  | .revoked => "revoked"

def certKindText : CertKind → String
  | .svid => "svid"
  | .generic => "generic"

/-- A value of a filter on an id column: a text that is no UUID matches nothing. -/
inductive IdFilter where
  | any
  | none
  | only (id : Id)

/-- `uuidCond`. -/
def IdFilter.admits : IdFilter → Id → Bool
  | .any, _ => true
  | .none, _ => false
  | .only i, id => id == i

/-- `eqCond`. -/
def admitsText (filter value : String) : Bool := filter == "" || value == filter

structure CertificatePageFilter where
  issuerID : IdFilter
  spiffeID : String
  status : String
  visible : Visible

/-- A sort field over a `NOT NULL` column. -/
def column (descending : Bool) : SortField := ⟨false, true, descending⟩

/-- `certificateList`: the name of an issuer is text and may be NULL, its id is not. -/
def certificateList (byName : Bool) : ListSpec where
  fields := [("identity", ⟨true, false, false⟩), ("issuer", ⟨byName, !byName, false⟩),
    ("kind", column false), ("status", column false), ("not_before", column true),
    ("not_after", column false), ("created_at", column true)]
  default := "created_at"

def certificateListFor (v : Visible) : ListSpec := certificateList v.all

/-- `CertIdentityExpr`; the empty SPIFFE ID is stored as NULL. -/
def certIdentity (c : IssuedCertificate) : Option String :=
  if c.spiffeID ≠ "" then some c.spiffeID
  else c.sans.head? <|> if c.subject ≠ "" then some c.subject else none

/-- The value of a text column. -/
def textKey : Option String → SortKey
  | some s => .text s
  | none => .null

/-- The sort expressions of the certificate pages. Only callers who may read everything sort by
the issuer's name. -/
def certificateKey (db : Database) (tenantID : Id) (v : Visible) (field : String)
    (c : IssuedCertificate) : SortKey :=
  if field = "identity" then textKey (certIdentity c)
  else if field = "issuer" then
    if v.all then
      textKey (((db.issuers.get? c.issuerID).filter fun i => i.tenantID == tenantID).map
        Issuer.name)
    else .number c.issuerID
  else if field = "kind" then .text (certKindText (defaultKind c.kind))
  else if field = "status" then .text (certStatusText c.status)
  else if field = "not_before" then .number c.notBefore
  else if field = "not_after" then .number c.notAfter
  else .number c.createdAt

def CertificatePageFilter.admits (f : CertificatePageFilter) (tenantID : Id)
    (c : IssuedCertificate) : Bool :=
  c.tenantID == tenantID && f.issuerID.admits c.issuerID && admitsText f.spiffeID c.spiffeID &&
    admitsText f.status (certStatusText c.status) && f.visible.shows c.id

def issuerList : ListSpec where
  fields := [("name", ⟨true, true, false⟩), ("type", column false), ("trust_domain", column false),
    ("created_at", column true)]
  default := "name"

/-- The sort expressions of the issuer pages. `createdAt` is the column of the creation times, which
only this list reads. -/
def issuerKey (createdAt : Id → Time) (field : String) (i : Issuer) : SortKey :=
  if field = "type" then .text (Issue.issuerTypeText i.type)
  else if field = "trust_domain" then .text i.trustDomain
  else if field = "created_at" then .number (createdAt i.id)
  else .text i.name

def secretList : ListSpec where
  fields := [("name", ⟨true, true, false⟩), ("kind", column false), ("created_at", column true)]
  default := "name"

def secretKindText : SecretKind → String
  | .acmeAccount => "acme_account"
  | .dnsCredential => "dns_credential"

/-- The sort expressions of the secret pages; `createdAt` is the column of the creation times. -/
def secretKey (createdAt : Id → Time) (field : String) (s : TenantSecret) : SortKey :=
  if field = "kind" then .text (secretKindText s.kind)
  else if field = "created_at" then .number (createdAt s.id)
  else .text s.name

def webhookList : ListSpec where
  fields := [("name", ⟨true, true, false⟩), ("created_at", column true)]
  default := "name"

/-- The sort expressions of the webhook pages. -/
def webhookKey (field : String) (w : WebhookEndpoint) : SortKey :=
  if field = "created_at" then .number w.createdAt else .text w.name

namespace Sql

def pageCertificates (tenantID : Id) (f : CertificatePageFilter) (req : PageRequest) :
    Sql (List IssuedCertificate × Nat × PageRequest) :=
  Tx.query fun db => .ok (P.listQuery.page (certificateListFor f.visible) req
    (certificateKey db tenantID f.visible) IssuedCertificate.id
    (db.certificates.rows.filter (f.admits tenantID)))

/-- The certificates of an issuer that `issuerCols` counts. -/
def certificateCount (db : Database) (tenantID id : Id) : Nat :=
  (db.certificates.rows.filter fun c => c.issuerID == id && c.tenantID == tenantID).length

/-- `PageIssuers`: the rows with their certificate counts. -/
def pageIssuers (createdAt : Id → Time) (tenantID : Id) (v : Visible) (req : PageRequest) :
    Sql (List (Issuer × Nat) × Nat × PageRequest) :=
  Tx.query fun db =>
    let page := P.listQuery.page issuerList req (issuerKey createdAt) Issuer.id
      (db.issuers.rows.filter fun i => i.tenantID == tenantID && v.shows i.id)
    .ok (page.1.map fun i => (i, certificateCount db tenantID i.id), page.2)

/-- `ListIssuers`, whose rows carry their certificate counts. -/
def listCountedIssuers (tenantID : Id) (afterName : String) (limit : Nat) :
    Sql (List (Issuer × Nat)) :=
  Tx.query fun db => .ok (((sortRows (NameBefore P Issuer.name Issuer.id)
    (db.issuers.rows.filter fun i => i.tenantID == tenantID &&
      P.sqlLess (P.sqlLower afterName) (P.sqlLower i.name))).take limit).map fun i =>
        (i, certificateCount db tenantID i.id))

def pageSecrets (createdAt : Id → Time) (tenantID : Id) (req : PageRequest) :
    Sql (List TenantSecret × Nat × PageRequest) :=
  Tx.query fun db => .ok (P.listQuery.page secretList req (secretKey createdAt)
    TenantSecret.id (db.secrets.rows.filter fun s => s.tenantID == tenantID))

def pageWebhooks (tenantID : Id) (req : PageRequest) :
    Sql (List WebhookEndpoint × Nat × PageRequest) :=
  Tx.query fun db => .ok (P.listQuery.page webhookList req webhookKey
    WebhookEndpoint.id (db.webhooks.rows.filter fun w => w.tenantID == tenantID))

/-- `TenantStats`, of which these are the counts of issuers, certificates and jobs. -/
structure Stats where
  issuers : Nat
  expiringSoon : Nat
  certificates : CertStatus → Nat
  jobs : JobStatus → Nat

def tenantStats (tenantID : Id) (now : Time) (window : Duration) : Sql Stats :=
  Tx.query fun db => .ok
    { issuers := db.issuers.rows.countP fun i => i.tenantID == tenantID
      expiringSoon := db.certificates.rows.countP fun c =>
        c.tenantID == tenantID && (c.status == .active || c.status == .expiring) &&
          decide (now < c.notAfter) && decide (c.notAfter ≤ now + window)
      certificates := fun st => db.certificates.rows.countP fun c =>
        c.tenantID == tenantID && c.status == st
      jobs := fun st => db.jobs.rows.countP fun j => j.tenantID == tenantID && j.status == st }

end Sql

/-! ## The services -/

namespace Issue

open Authz

/-- `Readable`: the caller's read scope. -/
def readable (subj : Subjects) (type : ResourceType) : Svc Visible := do
  let (ids, all) ← listAccessibleIDs subj type
  pure ⟨all, ids⟩

def certViews (subj : Subjects) : List IssuedCertificate → Svc (List CertificateView)
  | [] => pure []
  | row :: rows => do
    let perms ← effective subj .certificate row.id
    let v ← certView row perms
    let out ← certViews subj rows
    pure (v :: out)

structure CertificateListFilter where
  issuerID : IdFilter
  spiffeID : String
  status : String

def pageCertificates (subj : Subjects) (f : CertificateListFilter) (req : PageRequest) :
    Svc (Page CertificateView) := do
  let vis ← readable subj .certificate
  let (rows, total, applied) ← fetch
    (Sql.pageCertificates P subj.tenantID ⟨f.issuerID, f.spiffeID, f.status, vis⟩ req)
  let items ← certViews subj rows
  pure ⟨items, total, applied⟩

/-- The views of the issuers, with their creation times. -/
def issuerViews (createdAt : Id → Time) (subj : Subjects) :
    List (Issuer × Nat) → Svc (List (IssuerView × Time))
  | [] => pure []
  | (row, count) :: rows => do
    let perms ← effective subj .issuer row.id
    let out ← issuerViews createdAt subj rows
    pure ((issuerView P row count perms, createdAt row.id) :: out)

def pageIssuers (createdAt : Id → Time) (subj : Subjects) (req : PageRequest) :
    Svc (Page (IssuerView × Time)) := do
  let vis ← readable subj .issuer
  let (rows, total, applied) ← fetch (Sql.pageIssuers P createdAt subj.tenantID vis req)
  let items ← issuerViews P createdAt subj rows
  pure ⟨items, total, applied⟩

/-- One batch of `ListIssuers`: the views of the readable rows, until there are `limit`. -/
def listIssuerBatch (subj : Subjects) (vis : Visible) (limit : Nat) :
    List (Issuer × Nat) → List IssuerView → Svc (List IssuerView)
  | [], out => pure out
  | (row, count) :: rows, out =>
    if !vis.shows row.id then listIssuerBatch subj vis limit rows out
    else do
      let perms ← effective subj .issuer row.id
      let v := issuerView P row count perms
      if out.length + 1 = limit then pure (out ++ [v])
      else listIssuerBatch subj vis limit rows (out ++ [v])

/-- The loop of `ListIssuers`. Every round but the last goes on behind the last name of a whole
batch, so `rounds` bounds the number of batches. -/
def listIssuerRounds (subj : Subjects) (vis : Visible) (limit : Nat) :
    Nat → String → List IssuerView → Svc (List IssuerView)
  | 0, _, out => pure out
  | rounds + 1, after, out =>
    if limit ≤ out.length then pure out
    else do
      let rows ← fetch (Sql.listCountedIssuers P subj.tenantID after limit)
      match rows.getLast? with
      | none => pure out
      | some last =>
        let out ← listIssuerBatch P subj vis limit rows out
        if rows.length < limit then pure out
        else listIssuerRounds subj vis limit rounds last.1.name out

/-- `ListIssuers`: the readable issuers and the name behind which the next page starts. -/
def listIssuers (rounds : Nat) (subj : Subjects) (after : String) (limit : Nat) :
    Svc (List IssuerView × String) := do
  let (ids, all) ← listAccessibleIDs subj .issuer
  let limit := if limit = 0 ∨ 100 < limit then 50 else limit
  let out ← listIssuerRounds P subj ⟨all, ids⟩ limit rounds after []
  pure (out, if out.length = limit then (out.getLast?.map IssuerView.name).getD "" else "")

/-- One batch of `ListCertificates`: the views of the readable rows, until there are `limit`. -/
def listBatch (subj : Subjects) (vis : Visible) (limit : Nat) :
    List IssuedCertificate → List CertificateView → Svc (List CertificateView)
  | [], out => pure out
  | row :: rows, out =>
    if !vis.shows row.id then listBatch subj vis limit rows out
    else do
      let perms ← effective subj .certificate row.id
      let v ← certView row perms
      if out.length + 1 = limit then pure (out ++ [v])
      else listBatch subj vis limit rows (out ++ [v])

/-- The loop of `ListCertificates`. Every round but the last moves the cursor below a whole batch,
so `rounds` bounds the number of batches. -/
def listRounds (subj : Subjects) (vis : Visible) :
    Nat → CertificateFilter → List CertificateView → Svc (List CertificateView)
  | 0, _, out => pure out
  | rounds + 1, f, out =>
    if f.limit ≤ out.length then pure out
    else do
      let rows ← fetch (Sql.listCertificates subj.tenantID f)
      match rows.getLast? with
      | none => pure out
      | some last =>
        let out ← listBatch subj vis f.limit rows out
        if rows.length < f.limit then pure out
        else
          listRounds subj vis rounds
            { f with cursorTS := last.createdAt, cursorID := some last.id } out

/-- The page size of `ListCertificates`; out of range is 50. -/
def certificateLimit (limit : Nat) : Nat := if limit = 0 ∨ 100 < limit then 50 else limit

/-- `ListCertificates`: the readable certificates and the cursor behind a full page, which is the id
of its last certificate. -/
def listCertificates (rounds : Nat) (subj : Subjects) (f : CertificateFilter) :
    Svc (List CertificateView × Option Id) := do
  let (ids, all) ← listAccessibleIDs subj .certificate
  let vis : Visible := ⟨all, ids⟩
  let f := { f with limit := certificateLimit f.limit }
  -- the creation time of a cursor that is an id alone
  let start ← match f.cursorID with
    | some id =>
      if f.cursorTS = 0 then do
        let cur ← attempt (fetch (Sql.getCertificate subj.tenantID id))
        match cur with
        | .error .notFound => pure none
        | .error e => fail e
        | .ok cur =>
          -- a cursor the caller may not read is unknown
          pure (if vis.shows cur.id then some { f with cursorTS := cur.createdAt } else none)
      else pure (some f)
    | none => pure (some f)
  match start with
  | none => pure ([], none)
  | some f => do
    let out ← listRounds subj vis rounds f []
    pure (out, if out.length = f.limit then out.getLast?.map CertificateView.id else none)

/-! ## What the pages show at a moment -/

/-- The view of a certificate at a moment. -/
def viewAt (s : Database) (subj : Subjects) (now : Time) (c : IssuedCertificate) :
    CertificateView where
  id := c.id
  issuerID := c.issuerID
  kind := c.kind
  serial := c.serial
  spiffeID := c.spiffeID
  subject := c.subject
  sans := c.sans
  notBefore := c.notBefore
  notAfter := c.notAfter
  fingerprintSHA256 := c.fingerprintSHA256
  status := deriveStatus c now
  keyDelivered := c.keyDelivered
  hasKey := decide (0 < c.keySealed.length)
  autoRenew := c.autoRenew
  supersededBy := c.supersededBy
  owner := c.owner
  createdAt := c.createdAt
  permissions := permissionsAt s subj .certificate c.id now

section Views

variable {e : Env} {s : Database} {subj : Subjects} {c : IssuedCertificate} {vis : Visible}

theorem quiet_certViews (subj : Subjects) (rows : List IssuedCertificate) :
    Quiet (certViews subj rows) := by
  induction rows with
  | nil => exact only_pure _
  | cons c rows ih =>
    refine only_bind (quiet_effective _ _ _) fun _ => ?_
    exact only_bind (quiet_certView _ _) fun _ => only_bind ih fun _ => only_pure _

/-- The rows are certificates of the caller's tenant. -/
def Own (s : Database) (subj : Subjects) (rows : List IssuedCertificate) : Prop :=
  ∀ c ∈ rows, c ∈ s.certificates.rows ∧ c.tenantID = subj.tenantID

theorem located_of_mem (hc : c ∈ s.certificates.rows) {t : Id} (ht : c.tenantID = t) :
    Located s t .certificate c.id :=
  Option.isSome_iff_exists.2 ⟨c, Database.certificate?_eq_some.2 ⟨hc, rfl, ht⟩⟩

theorem observe_view (hfault : e.fault = .ok) (hc : c ∈ s.certificates.rows)
    (ht : c.tenantID = subj.tenantID) {β : Type} (f : CertificateView → Svc β) : observe e s (do
      let perms ← effective subj .certificate c.id
      let v ← certView c perms
      f v) = observe e s (f (viewAt s subj e.clock c)) := by
  rw [observe_bind (quiet_effective _ _ _), observe_effective hfault (located_of_mem hc ht)]
  show observe e s (certView c _ >>= f) = _
  rw [observe_bind (quiet_certView _ _)]
  rfl

theorem observe_certViews (hfault : e.fault = .ok) {rows : List IssuedCertificate}
    (hown : Own s subj rows) :
    observe e s (certViews subj rows) = .ok (rows.map (viewAt s subj e.clock)) := by
  induction rows with
  | nil => rfl
  | cons c rows ih =>
    obtain ⟨hc, ht⟩ := hown c List.mem_cons_self
    unfold certViews
    rw [observe_view hfault hc ht, observe_bind (quiet_certViews _ _),
      ih fun c hc => hown c (List.mem_cons_of_mem _ hc)]
    rfl

theorem quiet_readable (subj : Subjects) (type : ResourceType) : Quiet (readable subj type) :=
  only_bind (quiet_listAccessibleIDs _ _) fun _ => only_pure _

theorem observe_readable (hfault : e.fault = .ok) (subj : Subjects) (type : ResourceType) :
    ∃ vis, observe e s (readable subj type) = .ok vis ∧ vis.all = subj.isAdmin ∧
      ∀ id, vis.shows id = true ↔ Lists e s subj type id := by
  unfold readable
  rw [observe_bind (quiet_listAccessibleIDs _ _)]
  cases hadmin : subj.isAdmin with
  | true =>
    rw [observe_listAccessibleIDs_admin hadmin]
    exact ⟨⟨true, []⟩, rfl, rfl, fun id => ⟨fun _ => lists_of_admin hadmin, fun _ => rfl⟩⟩
  | false =>
    obtain ⟨ids, hids, hmem⟩ := observe_listAccessibleIDs hfault hadmin type
    rw [hids]
    refine ⟨⟨false, ids⟩, rfl, rfl, fun id => ?_⟩
    rw [lists_iff hfault hadmin, ← hmem]
    simp [Visible.shows]

theorem observe_pageCertificates (hfault : e.fault = .ok)
    (hvis : observe e s (readable subj .certificate) = .ok vis) (f : CertificateListFilter)
    (req : PageRequest) : observe e s (pageCertificates P subj f req) =
      let page := P.listQuery.page (certificateListFor vis) req
        (certificateKey s subj.tenantID vis) IssuedCertificate.id
        (s.certificates.rows.filter
          (CertificatePageFilter.admits ⟨f.issuerID, f.spiffeID, f.status, vis⟩ subj.tenantID))
      .ok ⟨page.1.map (viewAt s subj e.clock), page.2.1, page.2.2⟩ := by
  unfold pageCertificates
  rw [observe_bind (quiet_readable _ _), hvis]
  show observe e s _ = _
  rw [Sql.pageCertificates, observe_query hfault]
  show observe e s _ = _
  rw [observe_bind (quiet_certViews _ _), observe_certViews hfault fun c hc => ?_]
  · rfl
  obtain ⟨hrow, hadmits⟩ := List.mem_filter.1 (ListQuery.mem_of_mem_page hc)
  simp only [CertificatePageFilter.admits, Bool.and_eq_true, beq_iff_eq] at hadmits
  exact ⟨hrow, hadmits.1.1.1.1⟩

variable {P}

theorem located_issuer {i : Issuer} (hi : i ∈ s.issuers.rows) {t : Id} (ht : i.tenantID = t) :
    Located s t .issuer i.id := by
  refine Option.isSome_iff_exists.2 ⟨i, Option.filter_eq_some_iff.2 ⟨?_, by simpa using ht⟩⟩
  exact Table.get?_eq_some_iff.2 ⟨hi, rfl⟩

variable (P) in
/-- The view of an issuer at a moment, with its creation time. -/
def issuerAt (createdAt : Id → Time) (s : Database) (subj : Subjects) (now : Time) (i : Issuer) :
    IssuerView × Time :=
  (issuerView P i (Sql.certificateCount s subj.tenantID i.id)
    (permissionsAt s subj .issuer i.id now), createdAt i.id)

theorem quiet_issuerViews (createdAt : Id → Time) (subj : Subjects) (rows : List (Issuer × Nat)) :
    Quiet (issuerViews P createdAt subj rows) := by
  induction rows with
  | nil => exact only_pure _
  | cons row rows ih =>
    exact only_bind (quiet_effective _ _ _) fun _ => only_bind ih fun _ => only_pure _

theorem observe_issuerViews (hfault : e.fault = .ok) (createdAt : Id → Time) {rows : List Issuer}
    (hown : ∀ i ∈ rows, i ∈ s.issuers.rows ∧ i.tenantID = subj.tenantID) :
    observe e s (issuerViews P createdAt subj
        (rows.map fun i => (i, Sql.certificateCount s subj.tenantID i.id))) =
      .ok (rows.map (issuerAt P createdAt s subj e.clock)) := by
  induction rows with
  | nil => rfl
  | cons i rows ih =>
    obtain ⟨hi, ht⟩ := hown i List.mem_cons_self
    rw [List.map_cons]
    unfold issuerViews
    rw [observe_bind (quiet_effective _ _ _), observe_effective hfault (located_issuer hi ht)]
    show observe e s _ = _
    rw [observe_bind (quiet_issuerViews _ _ _),
      ih fun i hi => hown i (List.mem_cons_of_mem _ hi)]
    rfl

theorem observe_pageIssuers (hfault : e.fault = .ok)
    (hvis : observe e s (readable subj .issuer) = .ok vis) (createdAt : Id → Time)
    (req : PageRequest) : observe e s (pageIssuers P createdAt subj req) =
      let page := P.listQuery.page issuerList req (issuerKey createdAt) Issuer.id
        (s.issuers.rows.filter fun i => i.tenantID == subj.tenantID && vis.shows i.id)
      .ok ⟨page.1.map (issuerAt P createdAt s subj e.clock), page.2.1, page.2.2⟩ := by
  unfold pageIssuers
  rw [observe_bind (quiet_readable _ _), hvis]
  show observe e s _ = _
  rw [Sql.pageIssuers, observe_query hfault]
  show observe e s _ = _
  rw [observe_bind (quiet_issuerViews _ _ _), observe_issuerViews hfault createdAt fun i hi => ?_]
  · rfl
  obtain ⟨hrow, hadmits⟩ := List.mem_filter.1 (ListQuery.mem_of_mem_page hi)
  rw [Bool.and_eq_true, beq_iff_eq] at hadmits
  exact ⟨hrow, hadmits.1⟩

end Views

end Issue

end Lcm
