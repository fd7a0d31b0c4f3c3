import Lcm.Safety.Veil
import Lcm.Scope

/-!
# What is read from databases that differ under seal

Every view, every list page and a backup without credentials is the same for two databases that
differ under seal only.

* `View`: the calls that read, with what they return.
* `blind_read`: each of them finds the same in databases that are veiled.
-/

namespace Lcm

open Db Svc Authz Sql List
open Database (Veiled)

variable {P : Platform} {e : Nat → Env} {n : Nat} (subj : Subjects)

theorem blind_locate (t : Id) (type : ResourceType) (id : Id) :
    Blind (Veiled P) (locate t type id) := by
  refine Blind.bind (Blind.attempt ?_) fun r => ?_
  · cases type with
    | certificate => exact (blind_fetch (blind_getCertificate t id)).bind fun _ => blind_pure _
    | issuer =>
      exact fun _ _ => (couple_fetch (twin_getIssuer t id)).seq fun _ _ _ _ =>
        couple_pure rfl
  cases r with
  | ok _ => exact blind_pure _
  | error err => exact blind_fail _

theorem blind_effective (type : ResourceType) (id : Id) :
    Blind (Veiled P) (effective subj type id) :=
  (blind_locate _ _ _).bind fun _ => (blind_fetch (blind_grantsOnResource _ _ _)).bind fun _ =>
    (blind_ask _ _).bind fun _ => blind_pure _

theorem blind_check (type : ResourceType) (id : Id) (a : Action) :
    Blind (Veiled P) (check subj type id a) :=
  (blind_effective subj type id).bind fun _ => blind_ite (blind_pure _) (blind_fail _)

theorem blind_listAccessibleIDs (type : ResourceType) :
    Blind (Veiled P) (listAccessibleIDs subj type) :=
  blind_ite (blind_pure _) ((blind_ask _ _).bind fun _ =>
    (blind_fetch ((Tx.blind_ask _).bind fun _ => Tx.blind_query fun _ _ h =>
      by rw [h.grants])).bind fun _ => blind_pure _)

/-! ## Issuers -/

theorem issuerView_eq {i i' : Issuer} (h : i.Veiled P i') (count : Nat) (p : Permissions) :
    Issue.issuerView P i count p = Issue.issuerView P i' count p :=
  by rw [h.1]; rfl

theorem blind_getIssuer (id : Id) :
    Blind (Veiled P) (Issue.getIssuer P subj id) := by
  refine (blind_check subj .issuer id .read).bind fun _ => ?_
  intro e n
  refine (couple_fetch (twin_countedIssuer subj.tenantID id)).seq ?_
  rintro k ⟨row, count⟩ ⟨row', _⟩ ⟨hrow, rfl⟩
  refine (blind_effective subj .issuer id e k).seq ?_
  rintro k perms _ rfl
  exact couple_pure (issuerView_eq hrow count perms)

theorem couple_listIssuerBatch (vis : Visible) (limit : Nat)
    {rows rows' : List (Issuer × Nat)} (h : Forall₂ (CountedAlike P) rows rows')
    (out : List IssuerView) :
    Couple e (Veiled P) (Veiled P) Eq
      (Issue.listIssuerBatch P subj vis limit rows out)
      (Issue.listIssuerBatch P subj vis limit rows' out) n := by
  induction h generalizing out n with
  | nil => exact couple_pure rfl
  | @cons x y rows rows' hxy _ ih =>
    obtain ⟨row, count⟩ := x
    obtain ⟨row', count'⟩ := y
    obtain ⟨hrow, rfl⟩ : row.Veiled P row' ∧ count = count' := hxy
    have hid : row.id = row'.id := hrow.id_eq
    unfold Issue.listIssuerBatch
    rw [← hid]
    refine couple_ite Iff.rfl (fun _ => ih out) fun _ => ?_
    refine (blind_effective subj .issuer row.id e n).seq ?_
    rintro k perms _ rfl
    rw [issuerView_eq hrow]
    exact couple_ite Iff.rfl (fun _ => couple_pure rfl) fun _ => ih _

theorem blind_listIssuerRounds (vis : Visible) (limit rounds : Nat)
    (after : String) (out : List IssuerView) :
    Blind (Veiled P) (Issue.listIssuerRounds P subj vis limit rounds after out) := by
  induction rounds generalizing after out with
  | zero => exact blind_pure _
  | succ rounds ih =>
    refine blind_ite (blind_pure _) fun e n => ?_
    refine (couple_fetch (twin_listCountedIssuers _ _ _)).seq fun k rows rows' h => ?_
    have hlast := forall₂_getLast? h
    generalize rows.getLast? = last at hlast ⊢
    generalize rows'.getLast? = last' at hlast ⊢
    cases hlast with
    | none => exact couple_pure rfl
    | @some x y hxy =>
      refine (couple_listIssuerBatch subj vis limit h out).seq ?_
      rintro k out _ rfl
      rw [← h.length_eq, show y.1.name = x.1.name by rw [hxy.1.1]]
      exact couple_ite Iff.rfl (fun _ => couple_pure rfl) fun _ => ih _ _ _ _

theorem blind_listIssuers (rounds : Nat) (subj : Subjects) (after : String) (limit : Nat) :
    Blind (Veiled P) (Issue.listIssuers P rounds subj after limit) :=
  (blind_listAccessibleIDs subj .issuer).bind fun _ =>
    (blind_listIssuerRounds _ _ _ _ _ _).bind fun _ => blind_pure _

theorem couple_issuerViews (createdAt : Id → Time) (subj : Subjects)
    {rows rows' : List (Issuer × Nat)} (h : Forall₂ (CountedAlike P) rows rows') :
    Couple e (Veiled P) (Veiled P) Eq (Issue.issuerViews P createdAt subj rows)
      (Issue.issuerViews P createdAt subj rows') n := by
  induction h generalizing n with
  | nil => exact couple_pure rfl
  | @cons x y rows rows' hxy _ ih =>
    obtain ⟨row, count⟩ := x
    obtain ⟨row', count'⟩ := y
    obtain ⟨hrow, rfl⟩ : row.Veiled P row' ∧ count = count' := hxy
    have hid : row.id = row'.id := hrow.id_eq
    unfold Issue.issuerViews
    rw [← hid]
    refine (blind_effective subj .issuer row.id e n).seq ?_
    rintro k perms _ rfl
    refine ih.seq ?_
    rintro k out _ rfl
    rw [issuerView_eq hrow]
    exact couple_pure rfl

theorem twin_pageIssuers (createdAt : Id → Time) (t : Id) (v : Visible) (req : PageRequest) :
    Tx.Twin (Veiled P)
      (fun x y => Forall₂ (CountedAlike P) x.1 y.1 ∧ x.2 = y.2)
      (pageIssuers P createdAt t v req) (pageIssuers P createdAt t v req) := by
  refine Tx.twin_query fun db db' h => ?_
  have hrows : Forall₂ (Issuer.Veiled P)
      (db.issuers.rows.filter fun i => i.tenantID == t && v.shows i.id)
      (db'.issuers.rows.filter fun i => i.tenantID == t && v.shows i.id) :=
    forall₂_filter (fun x y hxy => by rw [hxy.1]) h.issuers
  have hkey : ∀ f (x y : Issuer), x.Veiled P y →
      issuerKey createdAt f x = issuerKey createdAt f y := fun f x y hxy => by rw [hxy.1]; rfl
  have hpage := forall₂_page P.listQuery issuerList req hkey (fun x y hxy => hxy.id_eq) hrows
  exact ⟨forall₂_counted h t hpage.1, hpage.2⟩

theorem blind_pageIssuers (createdAt : Id → Time) (subj : Subjects) (req : PageRequest) :
    Blind (Veiled P) (Issue.pageIssuers P createdAt subj req) := by
  refine Blind.bind ((blind_listAccessibleIDs subj .issuer).bind fun _ => blind_pure _) fun vis => ?_
  intro e n
  refine (couple_fetch (twin_pageIssuers createdAt subj.tenantID vis req)).seq ?_
  rintro k ⟨rows, total, applied⟩ ⟨rows', rest'⟩ ⟨hrows, hrest⟩
  obtain rfl : (total, applied) = rest' := hrest
  refine (couple_issuerViews createdAt subj hrows).seq ?_
  rintro k items _ rfl
  exact couple_pure rfl

/-! ## Secrets, webhooks and targets -/

theorem Secrets.view_eq {r r' : TenantSecret} (h : r.Veiled P r') : Secrets.view r = Secrets.view r' := by
  rw [h.1]
  rfl

theorem Webhook.view_eq {w w' : WebhookEndpoint} (h : w.Veiled w') :
    Webhook.view w = Webhook.view w' := by
  rw [h]
  rfl

theorem Deploy.view_eq {t t' : DeploymentTarget} (h : t.Veiled t') :
    Deploy.view P t = Deploy.view P t' := by
  obtain ⟨hrow, hsealed⟩ := h
  rw [hrow]
  by_cases hpos : t.configSealed.length > 0
  · simp only [Deploy.view, if_pos hpos, if_pos (hsealed.1 hpos)]
  · simp only [Deploy.view, if_neg hpos, if_neg fun h => hpos (hsealed.2 h)]

theorem blind_getSecret (id : Id) :
    Blind (Veiled P) (Secrets.get subj id) := fun _ _ =>
  (couple_fetch (twin_getSecret _ _)).seq fun _ _ _ h => couple_pure (Secrets.view_eq h)

theorem blind_listSecrets : Blind (Veiled P) (Secrets.list P subj) :=
  fun _ _ => (couple_fetch (twin_listSecrets _)).seq fun _ _ _ h =>
    couple_pure (forall₂_map_eq (fun _ _ hxy => Secrets.view_eq hxy) h)

theorem blind_page {ρ υ : Type} {A : ρ → ρ → Prop} {stmt : Sql (List ρ × Nat × PageRequest)}
    {view : ρ → υ} (hview : ∀ x y, A x y → view x = view y)
    (hstmt : Tx.Twin (Veiled P) (fun x y => Forall₂ A x.1 y.1 ∧ x.2 = y.2) stmt stmt) :
    Blind (Veiled P) (do
      let (rows, total, applied) ← fetch stmt
      pure (⟨rows.map view, total, applied⟩ : Page υ)) := by
  intro e n
  refine (couple_fetch hstmt).seq ?_
  rintro k ⟨rows, total, applied⟩ ⟨rows', rest'⟩ ⟨hrows, hrest⟩
  obtain rfl : (total, applied) = rest' := hrest
  have hitems : rows.map view = rows'.map view := forall₂_map_eq hview hrows
  exact couple_pure (by rw [hitems])

theorem blind_pageSecrets (createdAt : Id → Time) (subj : Subjects) (req : PageRequest) :
    Blind (Veiled P) (Secrets.page P createdAt subj req) := by
  refine blind_page (A := TenantSecret.Veiled P) (fun x y hxy => by rw [hxy.1]; rfl)
    (Tx.twin_query fun db db' h => ?_)
  exact forall₂_page _ _ _ (fun f x y hxy => by rw [hxy.1]; rfl)
    (fun x y hxy => hxy.id_eq) (forall₂_filter (fun x y hxy => by rw [hxy.1]) h.secrets)

theorem blind_listWebhooks : Blind (Veiled P) (Webhook.list P subj) :=
  fun _ _ => (couple_fetch (twin_listWebhooks _)).seq fun _ _ _ h =>
    couple_pure (forall₂_map_eq (fun _ _ hxy => Webhook.view_eq hxy) h)

theorem blind_pageWebhooks (req : PageRequest) :
    Blind (Veiled P) (Webhook.page P subj req) := by
  refine blind_page (fun x y hxy => Webhook.view_eq hxy) (Tx.twin_query fun db db' h => ?_)
  exact forall₂_page _ _ _ (fun f x y hxy => by rw [hxy]; rfl)
    (fun x y hxy => WebhookEndpoint.Veiled.id_eq hxy)
    (forall₂_filter (fun x y hxy => by rw [hxy]) h.webhooks)

theorem blind_listTargets : Blind (Veiled P) (Deploy.listTargets P subj) :=
  fun _ _ => (couple_fetch (twin_listTargets _)).seq fun _ _ _ h =>
    couple_pure (forall₂_map_eq (fun _ _ hxy => Deploy.view_eq hxy) h)

theorem blind_deploy (certID targetID : Id) :
    Blind (Veiled P) (Deploy.deploy P subj certID targetID) := by
  refine (blind_check subj .certificate certID .write).bind fun _ => ?_
  intro e n
  refine (couple_fetch (twin_getTarget subj.tenantID targetID)).seq fun k row row' hrow => ?_
  refine (blind_fetch (blind_getCertificate subj.tenantID certID) e k).seq fun k _ _ _ => ?_
  refine (couple_emit _).seq fun k _ _ _ => ?_
  exact couple_pure (Deploy.view_eq hrow)

/-! ## Certificates, requests and jobs -/

theorem blind_certView (c : IssuedCertificate) (p : Permissions) :
    Blind (Veiled P) (Issue.certView c p) := (blind_ask _ _).bind fun _ => blind_pure _

theorem blind_certViews (rows : List IssuedCertificate) :
    Blind (Veiled P) (Issue.certViews subj rows) := by
  induction rows with
  | nil => exact blind_pure _
  | cons row rows ih =>
    exact (blind_effective _ _ _).bind fun _ => (blind_certView _ _).bind fun _ =>
      ih.bind fun _ => blind_pure _

theorem certificateKey_eq {db db' : Database} (h : db.Veiled P db') (t : Id) (v : Visible) :
    certificateKey db t v = certificateKey db' t v := by
  funext field c
  have hname : ((db.issuers.get? c.issuerID).filter fun i => i.tenantID == t).map Issuer.name =
      ((db'.issuers.get? c.issuerID).filter fun i => i.tenantID == t).map Issuer.name := by
    have hrow := rel_filter (p := fun i : Issuer => i.tenantID == t)
      (fun x y hxy => by rw [hxy.1])
      (h.issuers.get? (fun _ _ h => h.id_eq) c.issuerID)
    generalize (db.issuers.get? c.issuerID).filter _ = o at hrow ⊢
    generalize (db'.issuers.get? c.issuerID).filter _ = o' at hrow ⊢
    cases hrow with
    | none => rfl
    | some hxy => exact congrArg some (by rw [hxy.1])
  unfold certificateKey
  rw [hname]

theorem blind_pageCertificates (f : Issue.CertificateListFilter)
    (req : PageRequest) : Blind (Veiled P) (Issue.pageCertificates P subj f req) := by
  refine Blind.bind ((blind_listAccessibleIDs _ _).bind fun _ => blind_pure _) fun vis => ?_
  refine (blind_fetch (Tx.blind_query fun db db' h => ?_)).bind fun _ =>
    (blind_certViews _ _).bind fun _ => blind_pure _
  rw [certificateKey_eq h, h.certificates]

theorem blind_listBatch (vis : Visible) (limit : Nat)
    (rows : List IssuedCertificate) (out : List CertificateView) :
    Blind (Veiled P) (Issue.listBatch subj vis limit rows out) := by
  induction rows generalizing out with
  | nil => exact blind_pure _
  | cons row rows ih =>
    refine blind_ite (ih out) ((blind_effective _ _ _).bind fun _ => ?_)
    exact (blind_certView _ _).bind fun _ => blind_ite (blind_pure _) (ih _)

theorem blind_listRounds (vis : Visible) (rounds : Nat) (f : CertificateFilter)
    (out : List CertificateView) :
    Blind (Veiled P) (Issue.listRounds subj vis rounds f out) := by
  induction rounds generalizing f out with
  | zero => exact blind_pure _
  | succ rounds ih =>
    refine blind_ite (blind_pure _) ((blind_fetch (blind_listCertificates _ _)).bind ?_)
    intro rows
    cases rows.getLast? with
    | none => exact blind_pure _
    | some last =>
      exact (blind_listBatch _ _ _ _ _).bind fun _ => blind_ite (blind_pure _) (ih _ _)

theorem blind_listCertificates (rounds : Nat) (subj : Subjects) (f : CertificateFilter) :
    Blind (Veiled P) (Issue.listCertificates rounds subj f) := by
  refine (blind_listAccessibleIDs subj .certificate).bind fun access => ?_
  obtain ⟨ids, all⟩ := access
  dsimp only
  split
  · refine blind_ite (Blind.bind (blind_fetch (blind_getCertificate _ _)).attempt ?_) ?_
    · intro cur
      split
      · exact blind_pure _
      · exact blind_fail _
      refine (blind_pure _).bind fun start => ?_
      cases start with
      | none => exact blind_pure _
      | some f => exact (blind_listRounds _ _ _ _ _).bind fun _ => blind_pure _
    · exact (blind_listRounds _ _ _ _ _).bind fun _ => blind_pure _
  · exact (blind_listRounds _ _ _ _ _).bind fun _ => blind_pure _

theorem blind_defaultDomains (t : Id) (vis : Visible) (rounds : Nat) (after : String)
    (out : List String) :
    Blind (Veiled P) (Enroll.defaultDomains P t vis rounds after out) := by
  induction rounds generalizing after out with
  | zero => exact blind_pure _
  | succ rounds ih =>
    intro e n
    refine (couple_fetch (twin_listIssuers _ _ _)).seq fun k page page' h => ?_
    have hfound : (page.filter fun i => i.isDefault && vis.shows i.id).map Issuer.trustDomain =
        (page'.filter fun i => i.isDefault && vis.shows i.id).map Issuer.trustDomain :=
      forall₂_map_eq (fun _ _ hxy => by rw [hxy.1])
        (forall₂_filter (fun _ _ hxy => by rw [hxy.1]) h)
    have hlast : page.getLast?.map Issuer.name = page'.getLast?.map Issuer.name := by
      rw [← getLast?_map, ← getLast?_map,
        forall₂_map_eq (fun _ _ hxy => by rw [hxy.1]) h]
    dsimp only
    rw [hfound, h.length_eq]
    refine couple_ite Iff.rfl (fun _ => couple_pure rfl) fun _ => ?_
    cases hp : page.getLast? with
    | none =>
      rw [hp] at hlast
      rw [Option.map_eq_none_iff.1 hlast.symm]
      exact couple_pure rfl
    | some last =>
      rw [hp] at hlast
      obtain ⟨last', hp', hname⟩ := Option.map_eq_some_iff.1 hlast.symm
      rw [hp']
      dsimp only
      rw [hname]
      exact ih _ _ _ _

theorem blind_scope (rounds : Nat) (subj : Subjects) :
    Blind (Veiled P) (Enroll.scope P rounds subj) :=
  (blind_listAccessibleIDs _ _).bind fun _ => (blind_defaultDomains _ _ _ _ _).bind fun _ =>
    blind_pure _

theorem blind_pageRequests (rounds : Nat) (subj : Subjects) (status : String) (req : PageRequest) :
    Blind (Veiled P) (Enroll.pageRequests P rounds subj status req) :=
  (blind_scope rounds subj).bind fun _ =>
    (blind_fetch (Tx.blind_query fun db db' h => by rw [h.requests])).bind fun _ => blind_pure _

theorem blind_pageJobs (rounds : Nat) (subj : Subjects) (status : String) (req : PageRequest) :
    Blind (Veiled P) (Enroll.pageJobs P rounds subj status req) := by
  refine (blind_scope rounds subj).bind fun sc => ?_
  refine (blind_fetch (Tx.blind_query fun db db' h => ?_)).bind fun _ => blind_pure _
  have hadmits : admitsJob db = admitsJob db' := by
    unfold admitsJob
    rw [h.requests]
  rw [h.jobs, hadmits]

/-! ## Backups without credentials -/

theorem blind_exportGrants (t : Id) (type : ResourceType) (refs : List (Id × String)) :
    Blind (Veiled P) (Transfer.exportGrants t type refs) := by
  induction refs with
  | nil => exact blind_pure _
  | cons ref refs ih =>
    exact (blind_fetch (blind_grantsOnResource _ _ _)).bind fun _ => ih.bind fun _ =>
      blind_pure _

theorem blind_listAllCertificates (t : Id) :
    Blind (Veiled P) (Transfer.listAllCertificates t) := by
  have hpages : ∀ (pages : Nat) (f : CertificateFilter) (out : List IssuedCertificate),
      Blind (Veiled P) (Transfer.pageCertificates
        (fun f => fetch (listCertificates t f)) pages f out) := by
    intro pages
    induction pages with
    | zero => exact fun _ _ => blind_pure _
    | succ pages ih =>
      intro f out
      refine (blind_fetch (Sql.blind_listCertificates _ _)).bind fun batch => ?_
      exact blind_ite (blind_pure _) (ih _ _)
  exact hpages _ _ _

theorem mapM_exportIssuer_eq {l l' : List Issuer} (h : Forall₂ (Issuer.Veiled P) l l') :
    l.mapM (Transfer.exportIssuer P false) = l'.mapM (Transfer.exportIssuer P false) := by
  induction h with
  | nil => rfl
  | cons hxy _ ih =>
    rw [mapM_cons, mapM_cons, ih, hxy.1]
    rfl

theorem exportCertificate_eq {l l' : List Issuer} (h : Forall₂ (Issuer.Veiled P) l l') :
    Transfer.exportCertificate l = Transfer.exportCertificate l' := by
  funext c
  have hname : (l.find? fun i => i.id == c.issuerID).map Issuer.name =
      (l'.find? fun i => i.id == c.issuerID).map Issuer.name := by
    have hp : ∀ x y : Issuer, x.Veiled P y → (x.id == c.issuerID) = (y.id == c.issuerID) :=
      fun x y hxy => by rw [hxy.1]
    have hfind := forall₂_find? hp h
    generalize l.find? _ = o at hfind ⊢
    generalize l'.find? _ = o' at hfind ⊢
    cases hfind with
    | none => rfl
    | some hxy => exact congrArg some (by rw [hxy.1])
  unfold Transfer.exportCertificate
  rw [hname]

theorem blind_exportBackup :
    Blind (Veiled P) (Transfer.exportBackup P subj false) := by
  refine (blind_ask _ _).bind fun now => ?_
  intro e n
  refine (couple_fetch (twin_listIssuers _ _ _)).seq fun k issuers issuers' h => ?_
  have hrefs : (issuers.map fun i => (i.id, i.name)) = issuers'.map fun i => (i.id, i.name) :=
    forall₂_map_eq (fun _ _ hxy => by rw [hxy.1]) h
  rw [mapM_exportIssuer_eq h, exportCertificate_eq h, hrefs]
  refine Blind.bind (blind_ofExcept _) (fun _ => ?_) e k
  refine (blind_listAllCertificates _).bind fun _ => ?_
  refine (blind_exportGrants _ _ _).bind fun _ => (blind_exportGrants _ _ _).bind fun _ => ?_
  exact (blind_pure _).bind fun _ => (blind_ask _ _).bind fun _ => blind_pure _

/-! ## Views -/

/-- A call that reads. -/
inductive View where
  | issuer (subj : Subjects) (id : Id)
  | issuers (rounds : Nat) (subj : Subjects) (after : String) (limit : Nat)
  | issuerPage (createdAt : Id → Time) (subj : Subjects) (req : PageRequest)
  | secret (subj : Subjects) (id : Id)
  | secrets (subj : Subjects)
  | secretPage (createdAt : Id → Time) (subj : Subjects) (req : PageRequest)
  | webhooks (subj : Subjects)
  | webhookPage (subj : Subjects) (req : PageRequest)
  | targets (subj : Subjects)
  | deployed (subj : Subjects) (certID targetID : Id)
  | certificates (rounds : Nat) (subj : Subjects) (f : CertificateFilter)
  | certificatePage (subj : Subjects) (f : Issue.CertificateListFilter) (req : PageRequest)
  | requestPage (rounds : Nat) (subj : Subjects) (status : String) (req : PageRequest)
  | jobPage (rounds : Nat) (subj : Subjects) (status : String) (req : PageRequest)
  /-- `Export` with `includeCredentials` false -/
  | backup (subj : Subjects)

namespace View

/-- What the call returns. -/
def Result : View → Type
  | issuer _ _ => IssuerView
  | issuers _ _ _ _ => List IssuerView × String
  | issuerPage _ _ _ => Page (IssuerView × Time)
  | secret _ _ => Secrets.View
  | secrets _ => List Secrets.View
  | secretPage _ _ _ => Page (Secrets.View × Time)
  | webhooks _ => List Webhook.View
  | webhookPage _ _ => Page Webhook.View
  | targets _ => List Deploy.TargetView
  | deployed _ _ _ => Deploy.TargetView
  | certificates _ _ _ => List CertificateView × Option Id
  | certificatePage _ _ _ => Page CertificateView
  | requestPage _ _ _ _ => Page Enroll.RequestView
  | jobPage _ _ _ _ => Page Enroll.JobView
  | backup _ => Transfer.Document

/-- The call. -/
def read (P : Platform) : (v : View) → Svc v.Result
  | issuer subj id => Issue.getIssuer P subj id
  | issuers rounds subj after limit => Issue.listIssuers P rounds subj after limit
  | issuerPage createdAt subj req => Issue.pageIssuers P createdAt subj req
  | secret subj id => Secrets.get subj id
  | secrets subj => Secrets.list P subj
  | secretPage createdAt subj req => Secrets.page P createdAt subj req
  | webhooks subj => Webhook.list P subj
  | webhookPage subj req => Webhook.page P subj req
  | targets subj => Deploy.listTargets P subj
  | deployed subj certID targetID => Deploy.deploy P subj certID targetID
  | certificates rounds subj f => Issue.listCertificates rounds subj f
  | certificatePage subj f req => Issue.pageCertificates P subj f req
  | requestPage rounds subj status req => Enroll.pageRequests P rounds subj status req
  | jobPage rounds subj status req => Enroll.pageJobs P rounds subj status req
  | backup subj => Transfer.exportBackup P subj false

end View

theorem blind_read (v : View) : Blind (Veiled P) (v.read P) := by
  cases v with
  | issuer subj id => exact blind_getIssuer subj id
  | issuers rounds subj after limit => exact blind_listIssuers rounds subj after limit
  | issuerPage createdAt subj req => exact blind_pageIssuers createdAt subj req
  | secret subj id => exact blind_getSecret subj id
  | secrets subj => exact blind_listSecrets subj
  | secretPage createdAt subj req => exact blind_pageSecrets createdAt subj req
  | webhooks subj => exact blind_listWebhooks subj
  | webhookPage subj req => exact blind_pageWebhooks subj req
  | targets subj => exact blind_listTargets subj
  | deployed subj certID targetID => exact blind_deploy subj certID targetID
  | certificates rounds subj f => exact blind_listCertificates rounds subj f
  | certificatePage subj f req => exact blind_pageCertificates subj f req
  | requestPage rounds subj status req => exact blind_pageRequests rounds subj status req
  | jobPage rounds subj status req => exact blind_pageJobs rounds subj status req
  | backup subj => exact blind_exportBackup subj

end Lcm
