import Lcm.Db.Views
import Lcm.Safety.Listings
import Lcm.Safety.Scope

/-!
# Hidden records and the list pages

The pages of certificates, issuers, requests and jobs are cut from the rows that the caller's read
scope admits, so a record outside of it is neither counted nor does it move another one. The scope
admits some records that the check of the single record does not let the caller read, and these
are shown.

* `pages_agree_iff`: on two stores that differ only in records the caller may not read, all pages
  are the same just when the admitted ones among these look the same.
* `foreign_request_counted`: they need not.
-/

namespace Lcm

open Db Svc Authz

variable {P : Platform} {e : Env} {s s' : Database} {subj : Subjects}

/-- A page from its rows, their number and the request as it was applied. -/
def Page.of {υ : Type} (p : List υ × Nat × PageRequest) : Page υ := ⟨p.1, p.2.1, p.2.2⟩

theorem Page.of_inj {υ : Type} {p q : List υ × Nat × PageRequest} : Page.of p = Page.of q ↔ p = q := by
  constructor
  · intro h
    have h' := Page.mk.inj h
    exact Prod.ext h'.1 (Prod.ext h'.2.1 h'.2.2)
  · exact congrArg Page.of

theorem observed_iff {ρ τ υ Φ : Type} {S S' : Showing ρ τ Φ} {spec : ListSpec} {id : ρ → Nat}
    {out : τ → υ} {list list' : Φ → PageRequest → Svc (Page υ)} {same : Prop}
    (hsame : (∀ φ r, S.page P.listQuery spec id out φ r = S'.page P.listQuery spec id out φ r) ↔ same)
    (h : ∀ φ r, observe e s (list φ r) = .ok (Page.of (S.page P.listQuery spec id out φ r)))
    (h' : ∀ φ r, observe e s' (list' φ r) = .ok (Page.of (S'.page P.listQuery spec id out φ r))) :
    (∀ φ r, observe e s (list φ r) = observe e s' (list' φ r)) ↔ same := by
  simp only [h, h', Except.ok.injEq, Page.of_inj]
  exact hsame

/-! ## Grants in common -/

/-- A resource is listed for the caller by a grant to the empty user id, and by no other. -/
def ByBlankGrant (s : Database) (subj : Subjects) (type : ResourceType) (id : Id) (now : Time) :
    Prop :=
  subj.isAdmin = false ∧ subj.userID = "" ∧ ToNobody s subj.tenantID type id now ∧
    ¬ ByRoleOrTenant s subj type id now

section Grants

variable {type : ResourceType} {id : Id}

theorem lists_iff_reads_or_blank (hfault : e.fault = .ok)
    (hloc : Located s subj.tenantID type id) :
    Lists e s subj type id ↔ Reads e s subj type id ∨ ByBlankGrant s subj type id e.clock := by
  have hagree := lists_iff_permitted_iff (e := e) hfault hloc
  have hlists : Permitted s subj type id .read e.clock → Lists e s subj type id :=
    lists_of_permitted hfault
  rw [reads_iff hfault]
  unfold ByBlankGrant
  tauto

theorem not_blank_of_reads (hfault : e.fault = .ok) (h : Reads e s subj type id) :
    ¬ ByBlankGrant s subj type id e.clock := by
  rw [reads_iff hfault] at h
  exact (lists_iff_permitted_iff hfault h.1).1 ⟨fun _ => h, lists_of_permitted hfault⟩

theorem permissionsAt_eq (hgrants : s'.grants = s.grants) (hloc : Located s subj.tenantID type id)
    (hloc' : Located s' subj.tenantID type id) (now : Time) :
    permissionsAt s subj type id now = permissionsAt s' subj type id now := by
  have hper : ∀ a, Permitted s subj type id a now ↔ Permitted s' subj type id a now := by
    intro a
    unfold Permitted Granted
    rw [hgrants]
    simp [hloc, hloc']
  unfold permissionsAt
  simp only [hper]

theorem lists_congr (hfault : e.fault = .ok) (hgrants : s'.grants = s.grants) :
    Lists e s subj type id ↔ Lists e s' subj type id := by
  cases hadmin : subj.isAdmin with
  | true => simp [lists_of_admin hadmin]
  | false => rw [lists_iff hfault hadmin, lists_iff hfault hadmin, hgrants]

end Grants

/-- The caller may read the same certificates in both stores. -/
def ReadsSameCertificates (e : Env) (subj : Subjects) (s s' : Database) : Prop :=
  ∀ c, (c ∈ s.certificates.rows ∧ Reads e s subj .certificate c.id) ↔
    (c ∈ s'.certificates.rows ∧ Reads e s' subj .certificate c.id)

/-- The caller may read the same issuers in both stores. -/
def ReadsSameIssuers (e : Env) (subj : Subjects) (s s' : Database) : Prop :=
  ∀ i, (i ∈ s.issuers.rows ∧ Reads e s subj .issuer i.id) ↔
    (i ∈ s'.issuers.rows ∧ Reads e s' subj .issuer i.id)

/-! ## Certificates -/

variable {vis : Visible} {sc : RequestScope} {rounds : Nat} {j : CertificateJob}

namespace Issue

theorem tenant_of_reads_certificate (hfault : e.fault = .ok) {c : IssuedCertificate}
    (hc : c ∈ s.certificates.rows) (h : Reads e s subj .certificate c.id) :
    c.tenantID = subj.tenantID := by
  obtain ⟨c', hc'⟩ := Option.isSome_iff_exists.1 ((reads_iff hfault).1 h).1
  obtain ⟨hrow, hid, ht⟩ := Database.certificate?_eq_some.1 hc'
  exact Table.eq_of_key_eq hrow hc hid ▸ ht

theorem tenant_of_reads_issuer (hfault : e.fault = .ok) {i : Issuer} (hi : i ∈ s.issuers.rows)
    (h : Reads e s subj .issuer i.id) : i.tenantID = subj.tenantID := by
  obtain ⟨i', hi'⟩ := Option.isSome_iff_exists.1 ((reads_iff hfault).1 h).1
  obtain ⟨hget, ht⟩ := Option.filter_eq_some_iff.1 hi'
  obtain ⟨hrow, hid⟩ := Table.get?_eq_some_iff.1 hget
  exact Table.eq_of_key_eq hrow hi hid ▸ eq_of_beq ht

theorem issuer?_eq_of_admin (hfault : e.fault = .ok) (hadmin : subj.isAdmin = true)
    (hissuers : ReadsSameIssuers e subj s s') (id : Id) :
    ((s.issuers.get? id).filter fun i => i.tenantID == subj.tenantID) =
      (s'.issuers.get? id).filter fun i => i.tenantID == subj.tenantID := by
  have hreads : ∀ {s : Database} {i : Issuer}, i ∈ s.issuers.rows → i.tenantID = subj.tenantID →
      Reads e s subj .issuer i.id := fun hi ht =>
    (reads_iff hfault).2 ⟨located_issuer hi ht, .inl hadmin⟩
  refine Option.ext fun i => ?_
  simp only [Option.filter_eq_some_iff, Table.get?_eq_some_iff, beq_iff_eq]
  constructor
  · rintro ⟨⟨hi, hid⟩, ht⟩
    exact ⟨⟨((hissuers i).1 ⟨hi, hreads hi ht⟩).1, hid⟩, ht⟩
  · rintro ⟨⟨hi, hid⟩, ht⟩
    exact ⟨⟨((hissuers i).2 ⟨hi, hreads hi ht⟩).1, hid⟩, ht⟩

/-- The certificate is listed for the caller by a grant to the empty user id alone. -/
def BlankCertificate (s : Database) (subj : Subjects) (now : Time) (c : IssuedCertificate) : Prop :=
  c.tenantID = subj.tenantID ∧ ByBlankGrant s subj .certificate c.id now

/-- What the pages tell of a certificate: its view and, by the filter, its stored status. -/
def certShown (s : Database) (subj : Subjects) (now : Time) (c : IssuedCertificate) :
    CertificateView × CertStatus := (viewAt s subj now c, c.status)

def certShowing (e : Env) (s : Database) (subj : Subjects) (vis : Visible) :
    Showing IssuedCertificate (CertificateView × CertStatus) CertificateListFilter where
  rows := s.certificates.rows
  key := certificateKey s subj.tenantID vis
  admits f := CertificatePageFilter.admits ⟨f.issuerID, f.spiffeID, f.status, vis⟩ subj.tenantID
  shown := certShown s subj e.clock
  known c := Reads e s subj .certificate c.id
  beyond := BlankCertificate s subj e.clock

/-- The filter fits what is shown. -/
def certFits (f : CertificateListFilter) (v : CertificateView × CertStatus) : Prop :=
  f.issuerID.admits v.1.issuerID = true ∧ admitsText f.spiffeID v.1.spiffeID = true ∧
    admitsText f.status (certStatusText v.2) = true

theorem certShowing_lawful (hfault : e.fault = .ok)
    (hvis : ∀ id, vis.shows id = true ↔ Lists e s subj .certificate id) :
    (certShowing e s subj vis).Lawful IssuedCertificate.id (fun v => v.1.id) certFits where
  nodup := s.certificates.nodup
  ident _ := rfl
  admits f c hc := by
    show CertificatePageFilter.admits _ _ c = true ↔ _ ∧ (_ ∨ _ ∧ _)
    have hsplit : c.tenantID = subj.tenantID → (Lists e s subj .certificate c.id ↔
        Reads e s subj .certificate c.id ∨ ByBlankGrant s subj .certificate c.id e.clock) :=
      fun ht => lists_iff_reads_or_blank hfault (located_of_mem hc ht)
    have htenant : Reads e s subj .certificate c.id → c.tenantID = subj.tenantID :=
      tenant_of_reads_certificate hfault hc
    simp only [CertificatePageFilter.admits, Bool.and_eq_true, beq_iff_eq, hvis]
    unfold certFits
    show _ ↔ (_ ∧ admitsText f.spiffeID c.spiffeID = true ∧ _) ∧ _
    constructor
    · rintro ⟨⟨⟨⟨ht, hissuer⟩, hspiffe⟩, hstatus⟩, hlists⟩
      exact ⟨⟨hissuer, hspiffe, hstatus⟩, ((hsplit ht).1 hlists).imp_right fun h => ⟨ht, h⟩⟩
    rintro ⟨⟨hissuer, hspiffe, hstatus⟩, hreads | ⟨ht, hblank⟩⟩
    · have ht := htenant hreads
      exact ⟨⟨⟨⟨ht, hissuer⟩, hspiffe⟩, hstatus⟩, (hsplit ht).2 (.inl hreads)⟩
    · exact ⟨⟨⟨⟨ht, hissuer⟩, hspiffe⟩, hstatus⟩, (hsplit ht).2 (.inr hblank)⟩
  apart _ _ hreads hblank := not_blank_of_reads hfault hreads hblank.2

theorem certificateKey_eq (hfault : e.fault = .ok) (hissuers : ReadsSameIssuers e subj s s')
    {vis' : Visible} (hall : vis.all = subj.isAdmin) (hall' : vis'.all = subj.isAdmin) (f : String)
    {c c' : IssuedCertificate} {now : Time} (h : certShown s subj now c = certShown s' subj now c')
    : certificateKey s subj.tenantID vis f c = certificateKey s' subj.tenantID vis' f c' := by
  have hview {β : Type} (g : CertificateView → β) : g (viewAt s subj now c) =
      g (viewAt s' subj now c') := congrArg (fun v => g v.1) h
  have hstatus : c.status = c'.status := congrArg Prod.snd h
  have hspiffe : c.spiffeID = c'.spiffeID := hview CertificateView.spiffeID
  have hsans : c.sans = c'.sans := hview CertificateView.sans
  have hsubject : c.subject = c'.subject := hview CertificateView.subject
  have hissuer : c.issuerID = c'.issuerID := hview CertificateView.issuerID
  have hkind : c.kind = c'.kind := hview CertificateView.kind
  have hbefore : c.notBefore = c'.notBefore := hview CertificateView.notBefore
  have hafter : c.notAfter = c'.notAfter := hview CertificateView.notAfter
  have hcreated : c.createdAt = c'.createdAt := hview CertificateView.createdAt
  have hnames : vis.all = true → ((s.issuers.get? c.issuerID).filter fun i =>
      i.tenantID == subj.tenantID) = (s'.issuers.get? c'.issuerID).filter fun i =>
        i.tenantID == subj.tenantID := fun h => by
    rw [hissuer]
    exact issuer?_eq_of_admin hfault (hall.symm.trans h) hissuers c'.issuerID
  unfold certificateKey certIdentity
  rw [hall'.trans hall.symm, hspiffe, hsans, hsubject, hkind, hstatus, hbefore, hafter, hcreated]
  by_cases h : vis.all = true
  · rw [hnames h, hissuer]
  · rw [if_neg h, if_neg h, hissuer]

theorem pageCertificates_agree_iff (hQ : P.listQuery.Lawful) (hfault : e.fault = .ok)
    (hgrants : s'.grants = s.grants) (hcerts : ReadsSameCertificates e subj s s')
    (hissuers : ReadsSameIssuers e subj s s') :
    (∀ f req, observe e s (pageCertificates P subj f req) =
        observe e s' (pageCertificates P subj f req)) ↔
      SameShown s.certificates.rows s'.certificates.rows (BlankCertificate s subj e.clock)
        (BlankCertificate s' subj e.clock) (certShown s subj e.clock)
        (certShown s' subj e.clock) := by
  obtain ⟨vis, hvis, hall, hshows⟩ := observe_readable (s := s) hfault subj .certificate
  obtain ⟨vis', hvis', hall', hshows'⟩ := observe_readable (s := s') hfault subj .certificate
  have hknown : Showing.SameKnown (certShowing e s subj vis) (certShowing e s' subj vis') := by
    refine ⟨hcerts, fun c hc hreads => ?_⟩
    obtain ⟨hc', hreads'⟩ := (hcerts c).1 ⟨hc, hreads⟩
    have hperms := permissionsAt_eq hgrants ((reads_iff hfault).1 hreads).1
      ((reads_iff hfault).1 hreads').1 e.clock
    show (viewAt s subj e.clock c, c.status) = (viewAt s' subj e.clock c, c.status)
    unfold viewAt
    rw [hperms]
  have hout : ∀ v : CertificateView × CertStatus, ∃ f, certFits f v ∧
      ∀ w, certFits f w → w.1 = v.1 → w = v := by
    rintro ⟨v, st⟩
    refine ⟨⟨.any, "", certStatusText st⟩, ⟨rfl, rfl, by simp [admitsText]⟩, ?_⟩
    rintro ⟨w, st'⟩ ⟨-, -, hst⟩ hw
    refine Prod.ext hw ?_
    revert hst
    show admitsText (certStatusText st) (certStatusText st') = true → st' = st
    cases st <;> cases st' <;> decide
  -- both stores are listed by the same fields
  have hspec' : certificateListFor vis' = certificateListFor vis :=
    congrArg certificateList (hall'.trans hall.symm)
  refine observed_iff (Showing.pages_eq_iff (certificateListFor vis) Prod.fst hQ
    (certShowing_lawful hfault hshows) (certShowing_lawful hfault hshows') hknown rfl
    (fun f _ _ _ _ _ _ h => certificateKey_eq hfault hissuers hall hall' f h) hout)
    (observe_pageCertificates P hfault hvis) ?_
  rw [← hspec']
  exact observe_pageCertificates P hfault hvis'

/-! ## Issuers -/

/-- The issuer is listed for the caller by a grant to the empty user id alone. -/
def BlankIssuer (s : Database) (subj : Subjects) (now : Time) (i : Issuer) : Prop :=
  i.tenantID = subj.tenantID ∧ ByBlankGrant s subj .issuer i.id now

/-- The stores have the same certificates of the issuers the caller may read. -/
def SameIssued (e : Env) (subj : Subjects) (s s' : Database) : Prop :=
  ∀ i ∈ s.issuers.rows, Reads e s subj .issuer i.id → ∀ c : IssuedCertificate, c.issuerID = i.id →
    (c ∈ s.certificates.rows ↔ c ∈ s'.certificates.rows)

theorem certificateCount_eq {t id : Id}
    (h : ∀ c : IssuedCertificate, c.issuerID = id →
      (c ∈ s.certificates.rows ↔ c ∈ s'.certificates.rows)) :
    Sql.certificateCount s t id = Sql.certificateCount s' t id := by
  have hnodup : ∀ s : Database, (s.certificates.rows.filter fun c =>
      c.issuerID == id && c.tenantID == t).Nodup := fun s =>
    (List.Nodup.of_map _ s.certificates.nodup).filter _
  unfold Sql.certificateCount
  refine ((List.perm_ext_iff_of_nodup (hnodup s) (hnodup s')).2 fun c => ?_).length_eq
  simp only [List.mem_filter, Bool.and_eq_true, beq_iff_eq]
  constructor
  · rintro ⟨hc, hid, ht⟩
    exact ⟨(h c hid).1 hc, hid, ht⟩
  · rintro ⟨hc, hid, ht⟩
    exact ⟨(h c hid).2 hc, hid, ht⟩

variable (P) in
def issuerShowing (createdAt : Id → Time) (e : Env) (s : Database) (subj : Subjects)
    (vis : Visible) : Showing Issuer (IssuerView × Time) Unit where
  rows := s.issuers.rows
  key := issuerKey createdAt
  admits _ i := i.tenantID == subj.tenantID && vis.shows i.id
  shown := issuerAt P createdAt s subj e.clock
  known i := Reads e s subj .issuer i.id
  beyond := BlankIssuer s subj e.clock

theorem issuerShowing_lawful (hfault : e.fault = .ok) (createdAt : Id → Time)
    (hvis : ∀ id, vis.shows id = true ↔ Lists e s subj .issuer id) :
    (issuerShowing P createdAt e s subj vis).Lawful Issuer.id (fun v => v.1.id)
      (fun _ _ => True) where
  nodup := s.issuers.nodup
  ident _ := rfl
  admits _ i hi := by
    show (i.tenantID == subj.tenantID && vis.shows i.id) = true ↔ True ∧ (_ ∨ _ ∧ _)
    have hsplit : i.tenantID = subj.tenantID → (Lists e s subj .issuer i.id ↔
        Reads e s subj .issuer i.id ∨ ByBlankGrant s subj .issuer i.id e.clock) :=
      fun ht => lists_iff_reads_or_blank hfault (located_issuer hi ht)
    rw [Bool.and_eq_true, beq_iff_eq, hvis, true_and]
    constructor
    · rintro ⟨ht, hlists⟩
      exact ((hsplit ht).1 hlists).imp_right fun h => ⟨ht, h⟩
    rintro (hreads | ⟨ht, hblank⟩)
    · have ht := tenant_of_reads_issuer hfault hi hreads
      exact ⟨ht, (hsplit ht).2 (.inl hreads)⟩
    · exact ⟨ht, (hsplit ht).2 (.inr hblank)⟩
  apart _ _ hreads hblank := not_blank_of_reads hfault hreads hblank.2

theorem issuerKey_eq {createdAt createdAt' : Id → Time} (f : String) {i i' : Issuer} {now : Time}
    (h : issuerAt P createdAt s subj now i = issuerAt P createdAt' s' subj now i') :
    issuerKey createdAt f i = issuerKey createdAt' f i' := by
  have hname : i.name = i'.name := congrArg (fun v => v.1.name) h
  have htype : i.type = i'.type := congrArg (fun v => v.1.type) h
  have hdomain : i.trustDomain = i'.trustDomain := congrArg (fun v => v.1.trustDomain) h
  have hcreated : createdAt i.id = createdAt' i'.id := congrArg Prod.snd h
  unfold issuerKey
  rw [hname, htype, hdomain, hcreated]

theorem pageIssuers_agree_iff (hQ : P.listQuery.Lawful) (hfault : e.fault = .ok)
    (hgrants : s'.grants = s.grants) (hissuers : ReadsSameIssuers e subj s s')
    (hissued : SameIssued e subj s s') {createdAt createdAt' : Id → Time}
    (hcreated : ∀ i ∈ s.issuers.rows, Reads e s subj .issuer i.id →
      createdAt i.id = createdAt' i.id) :
    (∀ req, observe e s (pageIssuers P createdAt subj req) =
        observe e s' (pageIssuers P createdAt' subj req)) ↔
      SameShown s.issuers.rows s'.issuers.rows (BlankIssuer s subj e.clock)
        (BlankIssuer s' subj e.clock) (issuerAt P createdAt s subj e.clock)
        (issuerAt P createdAt' s' subj e.clock) := by
  obtain ⟨vis, hvis, -, hshows⟩ := observe_readable (s := s) hfault subj .issuer
  obtain ⟨vis', hvis', -, hshows'⟩ := observe_readable (s := s') hfault subj .issuer
  have hknown : Showing.SameKnown (issuerShowing P createdAt e s subj vis)
      (issuerShowing P createdAt' e s' subj vis') := by
    refine ⟨hissuers, fun i hi hreads => ?_⟩
    obtain ⟨hi', hreads'⟩ := (hissuers i).1 ⟨hi, hreads⟩
    have hperms := permissionsAt_eq hgrants ((reads_iff hfault).1 hreads).1
      ((reads_iff hfault).1 hreads').1 e.clock
    show issuerAt P createdAt s subj e.clock i = issuerAt P createdAt' s' subj e.clock i
    unfold issuerAt
    rw [hperms, hcreated i hi hreads, certificateCount_eq (hissued i hi hreads)]
  have hpages := observed_iff (Showing.pages_eq_iff issuerList id hQ
    (issuerShowing_lawful hfault createdAt hshows) (issuerShowing_lawful hfault createdAt' hshows')
    hknown rfl (fun f _ _ _ _ _ _ h => issuerKey_eq f h)
    fun v => ⟨(), trivial, fun _ _ h => h⟩)
    (fun _ req => observe_pageIssuers hfault hvis createdAt req)
    (fun _ req => observe_pageIssuers hfault hvis' createdAt' req)
  exact ⟨fun h => hpages.1 fun _ => h, fun h => hpages.2 h ()⟩

end Issue

/-! ## Requests and jobs -/

namespace Enroll

open Spiffe

variable {parseIPv6 : Net.Bytes → Bool}

/-- The scope admits the request and the check does not let the caller read it. -/
def AdmittedOnly (P : Platform) (s : Database) (subj : Subjects) (now : Time)
    (r : CertificateRequest) : Prop :=
  r.tenantID = subj.tenantID ∧ ¬ Asked subj r ∧ ScopeOnly P s subj now r

/-- The scope admits the job and the check does not let the caller read it. -/
def JobAdmittedOnly (P : Platform) (s : Database) (subj : Subjects) (now : Time)
    (j : CertificateJob) : Prop :=
  j.tenantID = subj.tenantID ∧ ∃ r ∈ s.requests.rows, r.id = j.requestID ∧
    r.tenantID = subj.tenantID ∧ ScopeOnly P s subj now r ∧
      (subj.isAdmin = true → r.issuerID.isSome = true)

theorem scopeShows_congr (hfault : e.fault = .ok) (hgrants : s'.grants = s.grants)
    (hissuers : s'.issuers = s.issuers) (r : CertificateRequest) :
    ScopeShows e s subj r ↔ ScopeShows e s' subj r := by
  unfold ScopeShows
  rw [hissuers]
  cases r.issuerID with
  | some id => exact lists_congr hfault hgrants
  | none => simp only [lists_congr (s := s) hfault hgrants]

variable (P) in
def requestShowing (e : Env) (s : Database) (subj : Subjects) (sc : RequestScope) :
    Showing CertificateRequest RequestView String where
  rows := s.requests.rows
  key := requestKey
  admits status := Sql.admitsRequest subj.tenantID status sc
  shown := requestView
  known r := r.tenantID = subj.tenantID ∧ Passes e s (authorizeReadRequest P subj) r ∧
    (Asked subj r ∨ ScopeShows e s subj r)
  beyond := AdmittedOnly P s subj e.clock

theorem passes_request_iff (hfault : e.fault = .ok) (r : CertificateRequest) :
    Passes e s (authorizeReadRequest P subj) r ↔ Asked subj r ∨ CheckShows P e s subj r :=
  authorizeReadRequest_iff hfault r

theorem requestShowing_lawful (hP : ParsesURLs P parseIPv6) (hfault : e.fault = .ok)
    (hidx : s.Indexed P) (hsc : IsScope e s subj sc) :
    (requestShowing P e s subj sc).Lawful CertificateRequest.id RequestView.id
      (fun status v => admitsText status (requestStatusText v.status) = true) where
  nodup := s.requests.nodup
  ident _ := rfl
  admits status r _ := by
    show Sql.admitsRequest subj.tenantID status sc r = true ↔
      admitsText status (requestStatusText r.status) = true ∧
        ((_ ∧ Passes e s (authorizeReadRequest P subj) r ∧ _) ∨ (_ ∧ _ ∧ _))
    rw [admitsRequest_iff hsc, passes_request_iff hfault, scopeOnly_iff hP hfault hidx]
    tauto
  apart r _ hknown hbeyond := by
    obtain ⟨-, hnot, honly⟩ := hbeyond
    have hcheck := ((passes_request_iff hfault r).1 hknown.2.1).resolve_left hnot
    exact ((scopeOnly_iff hP hfault hidx r).1 honly).2 hcheck

theorem requestKey_eq (f : String) {r r' : CertificateRequest} (h : requestView r = requestView r') :
    requestKey f r = requestKey f r' := by
  have hspiffe : r.spiffeID = r'.spiffeID := congrArg RequestView.spiffeID h
  have hsans : r.sans = r'.sans := congrArg RequestView.sans h
  have hkind : defaultKind r.kind = defaultKind r'.kind := congrArg RequestView.kind h
  have hstatus : r.status = r'.status := congrArg RequestView.status h
  have hcreated : r.createdAt = r'.createdAt := congrArg RequestView.createdAt h
  unfold requestKey requestIdentity
  rw [hspiffe, hsans, hkind, hstatus, hcreated]

variable (P) in
def jobShowing (e : Env) (s : Database) (subj : Subjects) (sc : RequestScope) :
    Showing CertificateJob JobView String where
  rows := s.jobs.rows
  key := jobKey
  admits status := Sql.admitsJob s subj.tenantID status { sc with actor := "" }
  shown := jobView
  known j := j.tenantID = subj.tenantID ∧ Passes e s (fun j => authorizeJob P subj j .read) j ∧
    (subj.isAdmin = true ∨
      ∃ r, s.request? subj.tenantID j.requestID = some r ∧ ScopeShows e s subj r)
  beyond := JobAdmittedOnly P s subj e.clock

theorem jobAdmittedOnly_iff (hP : ParsesURLs P parseIPv6) (hfault : e.fault = .ok)
    (hidx : s.Indexed P) (ht : j.tenantID = subj.tenantID) :
    JobAdmittedOnly P s subj e.clock j ↔ (subj.isAdmin = true ∨
        ∃ r, s.request? subj.tenantID j.requestID = some r ∧ ScopeShows e s subj r) ∧
      ¬ Passes e s (fun j => authorizeJob P subj j .read) j := by
  have hpasses : Passes e s (fun j => authorizeJob P subj j .read) j ↔ _ :=
    authorizeJob_iff hfault j .read
  rw [hpasses]
  unfold JobAdmittedOnly
  cases hrow : s.request? subj.tenantID j.requestID with
  | none =>
    have hnone : ¬ ∃ r ∈ s.requests.rows, r.id = j.requestID ∧ r.tenantID = subj.tenantID ∧
        ScopeOnly P s subj e.clock r ∧ (subj.isAdmin = true → r.issuerID.isSome = true) := by
      rintro ⟨r, hr, hid, htr, -⟩
      cases hrow.symm.trans (Database.request?_eq_some.2 ⟨hr, hid, htr⟩)
    simp [hnone]
  | some r =>
    obtain ⟨hr, hid, htr⟩ := Database.request?_eq_some.1 hrow
    have honly : (∃ r ∈ s.requests.rows, r.id = j.requestID ∧ r.tenantID = subj.tenantID ∧
        ScopeOnly P s subj e.clock r ∧ (subj.isAdmin = true → r.issuerID.isSome = true)) ↔
        ScopeOnly P s subj e.clock r ∧ (subj.isAdmin = true → r.issuerID.isSome = true) := by
      constructor
      · rintro ⟨r', hr', hid', -, h⟩
        exact Table.eq_of_key_eq hr' hr (hid'.trans hid.symm) ▸ h
      · exact fun h => ⟨r, hr, hid, htr, h⟩
    rw [honly, scopeOnly_iff hP hfault hidx]
    have hcheck : (∃ id, (some r).bind (issuerOf P s subj.tenantID) = some id ∧
        Permitted s subj .issuer id .read e.clock) ↔ CheckShows P e s subj r := Iff.rfl
    rw [hcheck, Option.bind_some]
    cases hadmin : subj.isAdmin with
    | false => simp [ht]
    | true =>
      -- administrators have every job listed, and pass when the request is not pinned
      cases hpin : r.issuerID with
      | some id =>
        have hscope : ScopeShows e s subj r := by
          unfold ScopeShows
          rw [hpin]
          exact lists_of_admin hadmin
        have hissuer : issuerOf P s subj.tenantID r ≠ none := by
          unfold issuerOf
          rw [hpin]
          exact Option.some_ne_none id
        simp [ht, hscope, hissuer]
      | none =>
        have hpass : ¬ issuerOf P s subj.tenantID r = none → CheckShows P e s subj r := by
          intro hne
          obtain ⟨id, hissuer⟩ := Option.ne_none_iff_exists'.1 hne
          exact ⟨id, hissuer, located_of_issuerOf hidx hpin hissuer, .inl hadmin⟩
        simpa [ht] using hpass

theorem jobShowing_lawful (hP : ParsesURLs P parseIPv6) (hfault : e.fault = .ok)
    (hidx : s.Indexed P) (hsc : IsScope e s subj sc) :
    (jobShowing P e s subj sc).Lawful CertificateJob.id JobView.id
      (fun status v => admitsText status (jobStatusText v.status) = true) where
  nodup := s.jobs.nodup
  ident _ := rfl
  admits status j _ := by
    show Sql.admitsJob s subj.tenantID status { sc with actor := "" } j = true ↔
      admitsText status (jobStatusText j.status) = true ∧
        ((_ ∧ Passes e s (fun j => authorizeJob P subj j .read) j ∧ _) ∨ _)
    rw [admitsJob_iff hsc]
    constructor
    · rintro ⟨ht, hstatus, hshows⟩
      refine ⟨hstatus, ?_⟩
      by_cases hpasses : Passes e s (fun j => authorizeJob P subj j .read) j
      · exact .inl ⟨ht, hpasses, hshows⟩
      · exact .inr ((jobAdmittedOnly_iff hP hfault hidx ht).2 ⟨hshows, hpasses⟩)
    rintro ⟨hstatus, ⟨ht, -, hshows⟩ | honly⟩
    · exact ⟨ht, hstatus, hshows⟩
    · exact ⟨honly.1, hstatus, ((jobAdmittedOnly_iff hP hfault hidx honly.1).1 honly).1⟩
  apart _ _ hknown honly := ((jobAdmittedOnly_iff hP hfault hidx honly.1).1 honly).2 hknown.2.1

theorem jobKey_eq (f : String) {j' : CertificateJob} (h : jobView j = jobView j') :
    jobKey f j = jobKey f j' := by
  have htype : j.type = j'.type := congrArg JobView.type h
  have hstatus : j.status = j'.status := congrArg JobView.status h
  have hattempts : j.attempts = j'.attempts := congrArg JobView.attempts h
  have hrun : j.runAfter = j'.runAfter := congrArg JobView.runAfter h
  have hcreated : j.createdAt = j'.createdAt := congrArg JobView.createdAt h
  unfold jobKey
  rw [htype, hstatus, hattempts, hrun, hcreated]

/-- A job the caller may read is admitted in both stores or in neither: its request is one they may
read. -/
theorem known_job (hfault : e.fault = .ok) (hgrants : s'.grants = s.grants)
    (hissuers : s'.issuers = s.issuers)
    (hrequests : SameReadable requestTable e (authorizeReadRequest P subj) subj.tenantID s s')
    (hpasses : Passes e s (fun j => authorizeJob P subj j .read) j)
    (hshows : subj.isAdmin = true ∨
      ∃ r, s.request? subj.tenantID j.requestID = some r ∧ ScopeShows e s subj r) :
    subj.isAdmin = true ∨
      ∃ r, s'.request? subj.tenantID j.requestID = some r ∧ ScopeShows e s' subj r := by
  cases hadmin : subj.isAdmin with
  | true => exact .inl rfl
  | false =>
    obtain ⟨r, hrow, hscope⟩ := hshows.resolve_left (by simp [hadmin])
    have hjob := (authorizeJob_iff hfault j .read).1 hpasses
    rw [hrow, Option.bind_some] at hjob
    have hcheck : CheckShows P e s subj r := hjob.resolve_left (by simp [hadmin])
    obtain ⟨hr, hid, htr⟩ := Database.request?_eq_some.1 hrow
    obtain ⟨hr', -, -⟩ := (hrequests r).1 ⟨hr, htr, (passes_request_iff hfault r).2 (.inr hcheck)⟩
    exact .inr ⟨r, Database.request?_eq_some.2 ⟨hr', hid, htr⟩,
      (scopeShows_congr hfault hgrants hissuers r).1 hscope⟩

theorem SameReadable.symm {ρ : Type} {T : Listed ρ} {authorize : ρ → Svc Unit} {t : Id}
    (h : SameReadable T e authorize t s s') : SameReadable T e authorize t s' s :=
  fun r => (h r).symm

section Agree

variable (hP : ParsesURLs P parseIPv6) (hQ : P.listQuery.Lawful) (hord : OrdersTexts P)
  (hfault : e.fault = .ok) (hidx : s.Indexed P) (hgrants : s'.grants = s.grants)
  (hissuers : s'.issuers = s.issuers)
  (hrequests : SameReadable requestTable e (authorizeReadRequest P subj) subj.tenantID s s')
  (hrounds : s.issuers.rows.length < rounds)

include hP hQ hord hfault hidx hgrants hissuers hrequests hrounds

theorem pageRequests_agree_iff :
    (∀ status req, observe e s (pageRequests P rounds subj status req) =
        observe e s' (pageRequests P rounds subj status req)) ↔
      SameShown s.requests.rows s'.requests.rows (AdmittedOnly P s subj e.clock)
        (AdmittedOnly P s' subj e.clock) requestView requestView := by
  have hidx' : s'.Indexed P := hidx.congr hissuers
  obtain ⟨sc, hsc, hscope⟩ := observe_scope hfault hord hidx subj
  obtain ⟨sc', hsc', hscope'⟩ := observe_scope hfault hord hidx' subj
  have hobs := observe_pageRequests hfault (hscope rounds hrounds)
  have hobs' := observe_pageRequests hfault (hscope' rounds (hissuers ▸ hrounds))
  have hknown : Showing.SameKnown (requestShowing P e s subj sc)
      (requestShowing P e s' subj sc') := by
    refine ⟨fun r => ?_, fun _ _ _ => rfl⟩
    have hr : (r ∈ s.requests.rows ∧ r.tenantID = subj.tenantID ∧
        Passes e s (authorizeReadRequest P subj) r) ↔ (r ∈ s'.requests.rows ∧
          r.tenantID = subj.tenantID ∧ Passes e s' (authorizeReadRequest P subj) r) := hrequests r
    have hscope : ScopeShows e s subj r ↔ ScopeShows e s' subj r :=
      scopeShows_congr hfault hgrants hissuers r
    unfold requestShowing
    tauto
  exact observed_iff (Showing.pages_eq_iff requestList id hQ
    (requestShowing_lawful hP hfault hidx hsc) (requestShowing_lawful hP hfault hidx' hsc')
    hknown rfl (fun f _ _ _ _ _ _ h => requestKey_eq f h)
    fun v => ⟨"", rfl, fun _ _ h => h⟩) hobs hobs'

theorem pageJobs_agree_iff
    (hjobs : SameReadable jobTable e (fun j => authorizeJob P subj j .read) subj.tenantID s s') :
    (∀ status req, observe e s (pageJobs P rounds subj status req) =
        observe e s' (pageJobs P rounds subj status req)) ↔
      SameShown s.jobs.rows s'.jobs.rows (JobAdmittedOnly P s subj e.clock)
        (JobAdmittedOnly P s' subj e.clock) jobView jobView := by
  have hidx' : s'.Indexed P := hidx.congr hissuers
  obtain ⟨sc, hsc, hscope⟩ := observe_scope hfault hord hidx subj
  obtain ⟨sc', hsc', hscope'⟩ := observe_scope hfault hord hidx' subj
  have hobs := observe_pageJobs hfault (hscope rounds hrounds)
  have hobs' := observe_pageJobs hfault (hscope' rounds (hissuers ▸ hrounds))
  have hknown : Showing.SameKnown (jobShowing P e s subj sc) (jobShowing P e s' subj sc') := by
    refine ⟨fun j => ⟨?_, ?_⟩, fun _ _ _ => rfl⟩
    · rintro ⟨hj, ht, hpasses, hshows⟩
      obtain ⟨hj', -, hpasses'⟩ := (hjobs j).1 ⟨hj, ht, hpasses⟩
      exact ⟨hj', ht, hpasses', known_job hfault hgrants hissuers hrequests hpasses hshows⟩
    rintro ⟨hj, ht, hpasses, hshows⟩
    obtain ⟨hj', -, hpasses'⟩ := (hjobs j).2 ⟨hj, ht, hpasses⟩
    exact ⟨hj', ht, hpasses',
      known_job hfault hgrants.symm hissuers.symm hrequests.symm hpasses hshows⟩
  exact observed_iff (Showing.pages_eq_iff jobList id hQ
    (jobShowing_lawful hP hfault hidx hsc) (jobShowing_lawful hP hfault hidx' hsc')
    hknown rfl (fun f _ _ _ _ _ _ h => jobKey_eq f h)
    fun v => ⟨"", rfl, fun _ _ h => h⟩) hobs hobs'

end Agree

end Enroll

/-! ## All pages -/

/-- On two stores with the same grants that differ only in records the caller may not read, all
pages of certificates, of issuers, of requests and of jobs are the same just when the records that
the list admits and the caller may not read look the same in both. -/
theorem pages_agree_iff {parseIPv6 : Net.Bytes → Bool} (hP : Spiffe.ParsesURLs P parseIPv6)
    (hQ : P.listQuery.Lawful) (hord : OrdersTexts P) (hfault : e.fault = .ok) (subj : Subjects)
    (s s' : Database) (hgrants : s'.grants = s.grants) :
    (ReadsSameCertificates e subj s s' → ReadsSameIssuers e subj s s' →
      ((∀ f req, observe e s (Issue.pageCertificates P subj f req) =
          observe e s' (Issue.pageCertificates P subj f req)) ↔
        SameShown s.certificates.rows s'.certificates.rows
          (Issue.BlankCertificate s subj e.clock) (Issue.BlankCertificate s' subj e.clock)
          (Issue.certShown s subj e.clock) (Issue.certShown s' subj e.clock))) ∧
    (ReadsSameIssuers e subj s s' → Issue.SameIssued e subj s s' →
      ∀ createdAt createdAt' : Id → Time,
      (∀ i ∈ s.issuers.rows, Reads e s subj .issuer i.id → createdAt i.id = createdAt' i.id) →
      ((∀ req, observe e s (Issue.pageIssuers P createdAt subj req) =
          observe e s' (Issue.pageIssuers P createdAt' subj req)) ↔
        SameShown s.issuers.rows s'.issuers.rows (Issue.BlankIssuer s subj e.clock)
          (Issue.BlankIssuer s' subj e.clock) (Issue.issuerAt P createdAt s subj e.clock)
          (Issue.issuerAt P createdAt' s' subj e.clock))) ∧
    (s.Indexed P → s'.issuers = s.issuers →
      Enroll.SameReadable requestTable e (Enroll.authorizeReadRequest P subj) subj.tenantID
        s s' →
      Enroll.SameReadable jobTable e (fun j => Enroll.authorizeJob P subj j .read)
        subj.tenantID s s' →
      ∀ rounds, s.issuers.rows.length < rounds →
      ((∀ status req, observe e s (Enroll.pageRequests P rounds subj status req) =
          observe e s' (Enroll.pageRequests P rounds subj status req)) ↔
        SameShown s.requests.rows s'.requests.rows (Enroll.AdmittedOnly P s subj e.clock)
          (Enroll.AdmittedOnly P s' subj e.clock) Enroll.requestView Enroll.requestView) ∧
      ((∀ status req, observe e s (Enroll.pageJobs P rounds subj status req) =
          observe e s' (Enroll.pageJobs P rounds subj status req)) ↔
        SameShown s.jobs.rows s'.jobs.rows (Enroll.JobAdmittedOnly P s subj e.clock)
          (Enroll.JobAdmittedOnly P s' subj e.clock) Enroll.jobView Enroll.jobView)) := by
  refine ⟨?_, ?_, ?_⟩
  · intro hcerts hissuers
    exact Issue.pageCertificates_agree_iff hQ hfault hgrants hcerts hissuers
  · intro hissuers hissued createdAt createdAt' hcreated
    exact Issue.pageIssuers_agree_iff hQ hfault hgrants hissuers hissued hcreated
  intro hidx hissuers hrequests hjobs rounds hrounds
  constructor
  · exact Enroll.pageRequests_agree_iff hP hQ hord hfault hidx hgrants hissuers hrequests hrounds
  · exact Enroll.pageJobs_agree_iff hP hQ hord hfault hidx hgrants hissuers hrequests
      hrounds hjobs

/-! ## A request for another tenant's issuer -/

section Sample

open Lcm.Sample Enroll Spiffe

/-- A user who may read nothing sees the same page with the pending request of another user and
without it. -/
theorem pages_agree_outsider :
    observe (env 60) withRequest (pageRequests goPlatform 5 outsider "" ⟨1, 25, "", ""⟩) =
      observe (env 60) database (pageRequests goPlatform 5 outsider "" ⟨1, 25, "", ""⟩) := by
  have hord : OrdersTexts goPlatform := ⟨platform_ordersTexts.irrefl, platform_ordersTexts.trans,
    platform_ordersTexts.total, platform_ordersTexts.empty⟩
  have hidx : withRequest.Indexed goPlatform := ⟨by decide, by decide, by decide⟩
  have hrequests : SameReadable requestTable (env 60) (authorizeReadRequest goPlatform outsider)
      outsider.tenantID withRequest database := by
    intro r
    constructor
    · rintro ⟨hr, -, hpasses⟩
      obtain rfl := List.mem_singleton.1 hr
      exact absurd hpasses (by decide)
    · rintro ⟨hr, -⟩
      cases hr
  have hjobs : SameReadable jobTable (env 60) (fun j => authorizeJob goPlatform outsider j .read)
      outsider.tenantID withRequest database := by
    intro j
    constructor
    · rintro ⟨hj, -⟩
      cases hj
    · rintro ⟨hj, -⟩
      cases hj
  refine ((pages_agree_iff goPlatform_parses listQuery_lawful hord rfl outsider withRequest database
    rfl).2.2 hidx rfl hrequests hjobs 5 (by decide)).1.2 (fun v => ⟨?_, ?_⟩) "" ⟨1, 25, "", ""⟩
  · rintro ⟨r, hr, ⟨-, -, honly⟩, -⟩
    obtain rfl := List.mem_singleton.1 hr
    rcases honly with ⟨hloc, -⟩ | ⟨-, -, huser, -⟩
    · exact absurd (show Located withRequest 1 .issuer 3 by decide) hloc
    · exact absurd huser (by decide)
  · rintro ⟨r, hr, -⟩
    cases hr

/-- The administrator of a tenant may not read the request that is pinned to another tenant's issuer,
and finds it on their pages. -/
theorem foreign_request_counted :
    requested.issuers = database.issuers ∧ requested.grants = database.grants ∧
    SameReadable requestTable (env 60) (authorizeReadRequest platform otherAdmin)
      otherAdmin.tenantID requested database ∧
    SameReadable jobTable (env 60) (fun j => authorizeJob platform otherAdmin j .read)
      otherAdmin.tenantID requested database ∧
    observe (env 60) requested (pageRequests platform 5 otherAdmin "" ⟨1, 25, "", ""⟩) ≠
      observe (env 60) database (pageRequests platform 5 otherAdmin "" ⟨1, 25, "", ""⟩) := by
  refine ⟨rfl, rfl, fun r => ⟨?_, ?_⟩, fun j => ⟨?_, ?_⟩, ?_⟩
  · rintro ⟨hr, -, hpasses⟩
    have hhidden : ∀ r ∈ requested.requests.rows,
        ¬ Passes (env 60) requested (authorizeReadRequest platform otherAdmin) r := by decide +kernel
    exact absurd hpasses (hhidden r hr)
  · rintro ⟨hr, -⟩
    cases hr
  · rintro ⟨hj, -⟩
    have hnone : requested.jobs.rows = [] := by decide +kernel
    rw [show jobTable.rows requested = [] from hnone] at hj
    cases hj
  · rintro ⟨hj, -⟩
    cases hj
  intro heq
  have htotal := congrArg (fun p => p.toOption.map Page.total) heq
  revert htotal
  decide +kernel

end Sample

end Lcm
