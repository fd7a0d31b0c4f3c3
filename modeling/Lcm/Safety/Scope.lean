import Lcm.Scope
import Lcm.Spiffe
import Lcm.Safety.Visibility

/-!
# The scope of the lists and the check of a record

The lists of requests and jobs show what is in the caller's scope; a single request or job is
checked through the issuer it would be issued from. The two differ in how they read a SPIFFE ID,
in an issuer that another tenant owns, and where `ListAccessibleIDs` and `Check` differ.

* `domainField_eq`: a text that both accept has one trust domain.
* `scope_agrees_iff`: at any moment the lists show a record to a caller just when the check lets
  them read it, except in the cases of `RequestApart` and `JobApart`.
* `foreign_issuer_shown`: `CreateRequest` brings one of them about.
-/

namespace Lcm.Enroll

open Conc Db Svc Authz Spiffe List Sql Database

/-! ## Texts -/

theorem exists_of_spiffeShape {s : String} (h : spiffeShape s = true) :
    ∃ td path, s = (⟨td, path, s⟩ : Csr.SPIFFEID).string ∧ Csr.validTrustDomain td = true ∧
      domainField s = td := by
  unfold spiffeShape at h
  split at h
  · cases h
  rename_i rest hrest
  rw [Bool.and_eq_true] at h
  obtain ⟨path, hpath⟩ : ∃ path, rest.dropWhile Csr.trustDomainChar = '/' :: path := by
    have hshape := h.2
    unfold pathShape at hshape
    split at hshape
    · next path heq => exact ⟨path, heq⟩
    · cases hshape
  have hs : s.toList = "spiffe://".toList ++ (rest.takeWhile Csr.trustDomainChar ++ '/' :: path) := by
    obtain ⟨scheme, happ, hscheme⟩ := dropPrefix?_eq_some_iff.1 hrest
    rw [← hpath, takeWhile_append_dropWhile, happ, eq_of_beq hscheme]
  have hnoSlash : ∀ c ∈ rest.takeWhile Csr.trustDomainChar, (c != '/') = true := by
    intro c hc
    have htd := all_eq_true.1 all_takeWhile c hc
    rw [bne_iff_ne]
    rintro rfl
    exact absurd htd (by decide)
  refine ⟨String.ofList (rest.takeWhile Csr.trustDomainChar), String.ofList path, ?_, ?_, ?_⟩
  · rw [Csr.SPIFFEID.string, ← String.toList_inj, hs]
    simp
  · unfold Csr.validTrustDomain
    rw [String.toList_ofList]
    exact all_takeWhile
  unfold domainField
  rw [hs]
  show String.ofList ((rest.takeWhile Csr.trustDomainChar ++ '/' :: path).takeWhile (· != '/')) = _
  rw [takeWhile_append_of_pos hnoSlash]
  simp

theorem domainField_eq {P : Platform} {parseIPv6 : Net.Bytes → Bool} (hP : ParsesURLs P parseIPv6)
    {s : String} {sid : Csr.SPIFFEID} (hshape : spiffeShape s = true)
    (hsid : Csr.parseSPIFFEID P s = some sid) : domainField s = sid.trustDomain := by
  obtain ⟨td, path, hs, hvalid, hfield⟩ := exists_of_spiffeShape hshape
  rw [parseSPIFFEID_text hP, parseSPIFFEID_eq_some_iff, hs, encode_string] at hsid
  have hbytes : validTrustDomain (bytesOf ⟨td, path, s⟩).trustDomain = true :=
    (sameClass_trustDomain.all_encode td).trans hvalid
  have htd := trustDomain_of_spells_string hbytes hsid.2.2
  rw [hfield]
  exact (Net.encode_inj htd).symm

/-! ## Listed and readable issuers -/

section Issuers

variable {e : Env} {s : Database} {subj : Subjects} {id : Id}

/-- An unexpired grant on the issuer names the caller. -/
def GrantNames (s : Database) (subj : Subjects) (id : Id) (now : Time) : Prop :=
  ∃ g ∈ s.grants.rows, On subj.tenantID .issuer id g ∧ Names g subj ∧ Unexpired g now

/-- The issuer is listed for the caller and the check does not let them read it: their tenant has
no such issuer, or only a grant to the empty user id names them. -/
def ListedOnly (s : Database) (subj : Subjects) (now : Time) (id : Id) : Prop :=
  (¬ Located s subj.tenantID .issuer id ∧
    (subj.isAdmin = true ∨ GrantNames s subj id now)) ∨
  (Located s subj.tenantID .issuer id ∧ subj.isAdmin = false ∧ subj.userID = "" ∧
    ToNobody s subj.tenantID .issuer id now ∧ ¬ ByRoleOrTenant s subj .issuer id now)

theorem lists_iff_grantNames (hfault : e.fault = .ok) :
    Lists e s subj .issuer id ↔ subj.isAdmin = true ∨ GrantNames s subj id e.clock := by
  cases hadmin : subj.isAdmin with
  | true => simp [lists_of_admin hadmin]
  | false =>
    rw [lists_iff hfault hadmin]
    simp [GrantNames]

theorem listedOnly_iff (hfault : e.fault = .ok) :
    ListedOnly s subj e.clock id ↔
      Lists e s subj .issuer id ∧ ¬ Permitted s subj .issuer id .read e.clock := by
  unfold ListedOnly
  by_cases hloc : Located s subj.tenantID .issuer id
  · have hagree := lists_iff_permitted_iff (e := e) (s := s) hfault hloc
    have hlists : Permitted s subj .issuer id .read e.clock → Lists e s subj .issuer id :=
      lists_of_permitted hfault
    simp only [hloc, not_true_eq_false, false_and, true_and, false_or]
    tauto
  have hnot : ¬ Permitted s subj .issuer id .read e.clock := fun h => hloc h.1
  rw [lists_iff_grantNames hfault]
  simp [hloc, hnot]

end Issuers

/-! ## The two ways to the issuer -/

variable {sc : RequestScope} {id : Id} {r : CertificateRequest} {req : PageRequest}
  {status : String}

section Routes

variable (P : Platform)

/-- `ParseSPIFFEID` accepts the SPIFFE ID of the request, with the trust domain. -/
def Identifies (r : CertificateRequest) (td : String) : Prop :=
  ∃ sid, Csr.parseSPIFFEID P r.spiffeID = some sid ∧ sid.trustDomain = td

/-- The SPIFFE ID of the request has the shape that the lists ask for, with the trust domain. -/
def Shaped (r : CertificateRequest) (td : String) : Prop :=
  spiffeShape r.spiffeID = true ∧ domainField r.spiffeID = td

/-- The scope and the check differ on the request: it is pinned to an issuer that is listed only, or
it is not pinned and for a default issuer of the tenant
* the check accepts the SPIFFE ID and lets the caller read the issuer, and the lists do not
  recognise the text (an upper-case scheme, a colon behind the trust domain, a number sign at the
  end);
* both recognise the text, and the issuer is listed only;
* only the lists recognise the text, and the issuer is listed. -/
def IssuerApart (s : Database) (subj : Subjects) (now : Time) (r : CertificateRequest) : Prop :=
  match r.issuerID with
  | some id => ListedOnly s subj now id
  | none => ∃ i ∈ s.issuers.rows, i.tenantID = subj.tenantID ∧ i.isDefault = true ∧
      ((Identifies P r i.trustDomain ∧ ¬ Shaped r i.trustDomain ∧
          Permitted s subj .issuer i.id .read now) ∨
        (Identifies P r i.trustDomain ∧ Shaped r i.trustDomain ∧ ListedOnly s subj now i.id) ∨
        (¬ Identifies P r i.trustDomain ∧ Shaped r i.trustDomain ∧
          (subj.isAdmin = true ∨ GrantNames s subj i.id now)))

/-- The case in which the lists of requests and the check differ. -/
def RequestApart (s : Database) (subj : Subjects) (now : Time) (r : CertificateRequest) : Prop :=
  ¬ Asked subj r ∧ IssuerApart P s subj now r

/-- The case in which the lists of jobs and the check differ: administrators pass both when the
request is not pinned. -/
def JobApart (s : Database) (subj : Subjects) (now : Time) (j : CertificateJob) : Prop :=
  ∃ r ∈ s.requests.rows, r.id = j.requestID ∧ r.tenantID = subj.tenantID ∧
    IssuerApart P s subj now r ∧ (subj.isAdmin = true → r.issuerID.isSome)

variable {P}
variable {e : Env} {s : Database} {subj : Subjects}

/-- The scope shows the request through its issuer. -/
def ScopeShows (e : Env) (s : Database) (subj : Subjects) (r : CertificateRequest) : Prop :=
  match r.issuerID with
  | some id => Lists e s subj .issuer id
  | none => ∃ i ∈ s.issuers.rows, i.tenantID = subj.tenantID ∧ i.isDefault = true ∧
      Shaped r i.trustDomain ∧ Lists e s subj .issuer i.id

theorem requestIssuerReadable_iff (hsc : IsScope e s subj sc) (r : CertificateRequest) :
    requestIssuerReadable sc r = true ↔ ScopeShows e s subj r := by
  unfold requestIssuerReadable ScopeShows
  cases r.issuerID with
  | some id =>
    rw [Bool.or_eq_true, hsc.allPinned, contains_iff_mem]
    cases hadmin : subj.isAdmin with
    | true => simp [lists_of_admin hadmin]
    | false => simp [hsc.issuers hadmin]
  | none =>
    rw [Bool.and_eq_true, contains_iff_mem, hsc.defaultDomains]
    constructor
    · rintro ⟨hshape, i, hi, ht, hdef, htd, hlists⟩
      exact ⟨i, hi, ht, hdef, ⟨hshape, htd.symm⟩, hlists⟩
    · rintro ⟨i, hi, ht, hdef, ⟨hshape, htd⟩, hlists⟩
      exact ⟨hshape, i, hi, ht, hdef, htd.symm, hlists⟩

theorem issuerOf_none_iff (hidx : s.Indexed P) {t : Id} (hpin : r.issuerID = none) :
    issuerOf P s t r = some id ↔ ∃ i ∈ s.issuers.rows, i.tenantID = t ∧ i.isDefault = true ∧
      Identifies P r i.trustDomain ∧ i.id = id := by
  unfold issuerOf
  rw [hpin]
  simp only [Option.bind_eq_some_iff, Option.map_eq_some_iff]
  constructor
  · rintro ⟨sid, hsid, i, hfind, rfl⟩
    have hi := mem_of_find?_eq_some hfind
    have hp := find?_some hfind
    simp only [Bool.and_eq_true, beq_iff_eq] at hp
    exact ⟨i, hi, hp.1.1, hp.2, ⟨sid, hsid, hp.1.2.symm⟩, rfl⟩
  rintro ⟨i, hi, ht, hdef, ⟨sid, hsid, htd⟩, rfl⟩
  refine ⟨sid, hsid, i, ?_, rfl⟩
  cases hfind : s.issuers.rows.find? fun i =>
      i.tenantID == t && i.trustDomain == sid.trustDomain && i.isDefault with
  | none =>
    have hnone := find?_eq_none.1 hfind i hi
    simp [ht, htd, hdef] at hnone
  | some j =>
    have hj := mem_of_find?_eq_some hfind
    have hp := find?_some hfind
    simp only [Bool.and_eq_true, beq_iff_eq] at hp
    exact congrArg some (hidx.oneDefault j hj i hi hp.2 hdef (hp.1.1.trans ht.symm)
      (hp.1.2.trans htd))

/-- The check lets the caller read the request through its issuer. -/
def CheckShows (P : Platform) (e : Env) (s : Database) (subj : Subjects) (r : CertificateRequest) :
    Prop :=
  ∃ id, issuerOf P s subj.tenantID r = some id ∧ Permitted s subj .issuer id .read e.clock

variable {parseIPv6 : Net.Bytes → Bool}

variable (P) in
/-- The scope shows the request through its issuer and the check does not: its issuer is listed
only, or only the lists recognise the SPIFFE ID. -/
def ScopeOnly (s : Database) (subj : Subjects) (now : Time) (r : CertificateRequest) : Prop :=
  match r.issuerID with
  | some id => ListedOnly s subj now id
  | none => ∃ i ∈ s.issuers.rows, i.tenantID = subj.tenantID ∧ i.isDefault = true ∧
      Shaped r i.trustDomain ∧ ((Identifies P r i.trustDomain ∧ ListedOnly s subj now i.id) ∨
        (¬ Identifies P r i.trustDomain ∧ (subj.isAdmin = true ∨ GrantNames s subj i.id now)))

theorem scopeOnly_iff (hP : ParsesURLs P parseIPv6) (hfault : e.fault = .ok) (hidx : s.Indexed P)
    (r : CertificateRequest) :
    ScopeOnly P s subj e.clock r ↔ ScopeShows e s subj r ∧ ¬ CheckShows P e s subj r := by
  unfold ScopeOnly ScopeShows CheckShows
  cases hpin : r.issuerID with
  | some id =>
    have hissuer : issuerOf P s subj.tenantID r = some id := by
      unfold issuerOf
      rw [hpin]
    simp only [hissuer, Option.some.injEq, exists_eq_left', listedOnly_iff hfault]
  | none =>
    -- the issuer the check finds is the default of the trust domain that the lists read
    have hfound : ∀ i ∈ s.issuers.rows, i.tenantID = subj.tenantID → i.isDefault = true →
        Shaped r i.trustDomain → ∀ id, issuerOf P s subj.tenantID r = some id →
          id = i.id ∧ Identifies P r i.trustDomain := by
      intro i hi ht hdef hshape id hid
      obtain ⟨j, hj, htj, hdefj, hident, rfl⟩ := (issuerOf_none_iff hidx hpin).1 hid
      have htd : j.trustDomain = i.trustDomain := by
        obtain ⟨sid, hsid, hsidtd⟩ := hident
        rw [← hsidtd, ← hshape.2]
        exact (domainField_eq hP hshape.1 hsid).symm
      exact ⟨congrArg Issuer.id (hidx.oneDefault j hj i hi hdefj hdef (htj.trans ht.symm) htd),
        htd ▸ hident⟩
    constructor
    · rintro ⟨i, hi, ht, hdef, hshape, ⟨hident, honly⟩ | ⟨hident, hlists⟩⟩
      · obtain ⟨hl, hper⟩ := (listedOnly_iff hfault).1 honly
        refine ⟨⟨i, hi, ht, hdef, hshape, hl⟩, ?_⟩
        rintro ⟨id, hid, hper'⟩
        exact hper ((hfound i hi ht hdef hshape id hid).1 ▸ hper')
      refine ⟨⟨i, hi, ht, hdef, hshape, (lists_iff_grantNames hfault).2 hlists⟩, ?_⟩
      rintro ⟨id, hid, -⟩
      exact hident (hfound i hi ht hdef hshape id hid).2
    rintro ⟨⟨i, hi, ht, hdef, hshape, hl⟩, hnot⟩
    refine ⟨i, hi, ht, hdef, hshape, ?_⟩
    by_cases hident : Identifies P r i.trustDomain
    · refine .inl ⟨hident, (listedOnly_iff hfault).2 ⟨hl, fun hper => hnot ?_⟩⟩
      exact ⟨i.id, (issuerOf_none_iff hidx hpin).2 ⟨i, hi, ht, hdef, hident, rfl⟩, hper⟩
    · exact .inr ⟨hident, (lists_iff_grantNames hfault).1 hl⟩

theorem shows_iff (hP : ParsesURLs P parseIPv6) (hfault : e.fault = .ok) (hidx : s.Indexed P)
    (r : CertificateRequest) :
    (ScopeShows e s subj r ↔ CheckShows P e s subj r) ↔ ¬ IssuerApart P s subj e.clock r := by
  have hread : ∀ id, Permitted s subj .issuer id .read e.clock → Lists e s subj .issuer id :=
    fun _ => lists_of_permitted hfault
  unfold IssuerApart ScopeShows CheckShows
  cases hpin : r.issuerID with
  | some id =>
    have hissuer : issuerOf P s subj.tenantID r = some id := by
      unfold issuerOf
      rw [hpin]
    simp only [hissuer, Option.some.injEq, exists_eq_left', listedOnly_iff hfault]
    exact ⟨fun h hnot => hnot.2 (h.1 hnot.1),
      fun h => ⟨fun hl => by_contra fun hper => h ⟨hl, hper⟩, hread id⟩⟩
  | none =>
    -- a text that both recognise has one trust domain, and that one default issuer
    have hdomain : ∀ td td', Identifies P r td → Shaped r td' → td = td' := by
      rintro td td' ⟨sid, hsid, rfl⟩ ⟨hshape, rfl⟩
      exact (domainField_eq hP hshape hsid).symm
    have hissuer : ∀ i ∈ s.issuers.rows, i.tenantID = subj.tenantID → i.isDefault = true →
        Identifies P r i.trustDomain → ∀ id, issuerOf P s subj.tenantID r = some id →
          id = i.id := by
      intro i hi ht hdef hident id hid
      exact Option.some.inj (hid.symm.trans
        ((issuerOf_none_iff hidx hpin).2 ⟨i, hi, ht, hdef, hident, rfl⟩))
    constructor
    · rintro hiff ⟨i, hi, ht, hdef, hcase⟩
      rcases hcase with ⟨hident, hshape, hper⟩ | ⟨hident, hshape, honly⟩ | ⟨hident, hshape, hlists⟩
      · obtain ⟨j, -, -, -, hshape', -⟩ := hiff.2
          ⟨i.id, (issuerOf_none_iff hidx hpin).2 ⟨i, hi, ht, hdef, hident, rfl⟩, hper⟩
        exact hshape (hdomain _ _ hident hshape' ▸ hshape')
      · obtain ⟨hl, hper⟩ := (listedOnly_iff hfault).1 honly
        obtain ⟨id, hid, hper'⟩ := hiff.1 ⟨i, hi, ht, hdef, hshape, hl⟩
        exact hper (hissuer i hi ht hdef hident id hid ▸ hper')
      obtain ⟨id, hid, -⟩ := hiff.1
        ⟨i, hi, ht, hdef, hshape, (lists_iff_grantNames hfault).2 hlists⟩
      obtain ⟨j, -, -, -, hident', -⟩ := (issuerOf_none_iff hidx hpin).1 hid
      exact hident (hdomain _ _ hident' hshape ▸ hident')
    · intro hapart
      constructor
      · rintro ⟨i, hi, ht, hdef, hshape, hl⟩
        by_cases hident : Identifies P r i.trustDomain
        · refine ⟨i.id, (issuerOf_none_iff hidx hpin).2 ⟨i, hi, ht, hdef, hident, rfl⟩, ?_⟩
          by_contra hper
          exact hapart ⟨i, hi, ht, hdef, .inr (.inl ⟨hident, hshape,
            (listedOnly_iff hfault).2 ⟨hl, hper⟩⟩)⟩
        · exact absurd ⟨i, hi, ht, hdef, .inr (.inr ⟨hident, hshape,
            (lists_iff_grantNames hfault).1 hl⟩)⟩ hapart
      rintro ⟨id, hid, hper⟩
      obtain ⟨i, hi, ht, hdef, hident, rfl⟩ := (issuerOf_none_iff hidx hpin).1 hid
      refine ⟨i, hi, ht, hdef, ?_, hread i.id hper⟩
      by_contra hshape
      exact hapart ⟨i, hi, ht, hdef, .inl ⟨hident, hshape, hper⟩⟩

end Routes

/-! ## The lists and the checks -/

section Lists

/-- With enough rounds the record is on one of the pages of the request. -/
def OnPages {υ : Type} (e : Env) (s : Database) (list : Nat → PageRequest → Svc (Page υ))
    (idOf : υ → Id) (req : PageRequest) (id : Id) : Prop :=
  ∃ k, ∀ rounds, k ≤ rounds → ∃ n : Nat, 0 < n ∧ ∃ page,
    observe e s (list rounds { req with page := n }) = .ok page ∧ ∃ v ∈ page.items, idOf v = id

variable {e : Env} {s : Database} {subj : Subjects}

theorem onPages_iff_mem {ρ υ : Type} {Q : ListQuery} {spec : ListSpec} (hQ : Q.Lawful)
    (hreq : (Q.new req spec).2 = true) {list : Nat → PageRequest → Svc (Page υ)}
    {key : String → ρ → SortKey} {idOf : ρ → Id} (view : ρ → υ) (viewID : υ → Id)
    (hview : ∀ x, viewID (view x) = idOf x) {rows : List ρ} {k : Nat}
    (hlist : ∀ rounds, k ≤ rounds → ∀ req, observe e s (list rounds req) =
      let page := Q.page spec req key idOf rows
      .ok ⟨page.1.map view, page.2.1, page.2.2⟩) :
    OnPages e s list viewID req id ↔ ∃ x ∈ rows, idOf x = id := by
  constructor
  · rintro ⟨k', hk'⟩
    obtain ⟨n, -, page, hpage, v, hv, rfl⟩ := hk' (max k k') (Nat.le_max_right _ _)
    rw [hlist _ (Nat.le_max_left _ _)] at hpage
    cases hpage
    obtain ⟨x, hx, rfl⟩ := mem_map.1 hv
    exact ⟨x, ListQuery.mem_of_mem_page hx, (hview x).symm⟩
  rintro ⟨x, hx, rfl⟩
  refine ⟨k, fun rounds hrounds => ?_⟩
  obtain ⟨n, hn, hmem⟩ : ∃ n : Nat, 0 < n ∧
      x ∈ (Q.page spec { req with page := n } key idOf rows).1 := hQ.exists_mem_page hreq hx
  exact ⟨n, hn, _, hlist rounds hrounds _, view x, mem_map_of_mem hmem, hview x⟩

variable {P : Platform} {parseIPv6 : Net.Bytes → Bool} {j : CertificateJob}

theorem admitsRequest_iff (hsc : IsScope e s subj sc) (status : String) (r : CertificateRequest) :
    admitsRequest subj.tenantID status sc r = true ↔ r.tenantID = subj.tenantID ∧
      admitsText status (requestStatusText r.status) = true ∧
        (Asked subj r ∨ ScopeShows e s subj r) := by
  unfold admitsRequest Asked
  rw [← requestIssuerReadable_iff hsc]
  simp [hsc.actor, and_assoc]

theorem admitsJob_iff (hsc : IsScope e s subj sc) (status : String) (j : CertificateJob) :
    admitsJob s subj.tenantID status { sc with actor := "" } j = true ↔
      j.tenantID = subj.tenantID ∧ admitsText status (jobStatusText j.status) = true ∧
        (subj.isAdmin = true ∨
          ∃ r, s.request? subj.tenantID j.requestID = some r ∧ ScopeShows e s subj r) := by
  unfold admitsJob
  rw [Bool.and_eq_true, Bool.and_eq_true, beq_iff_eq, and_assoc]
  refine and_congr_right fun ht => and_congr_right fun _ => ?_
  cases hadmin : subj.isAdmin with
  | true => simp [hsc.allJobs, hadmin]
  | false =>
    have hsame : ∀ r, requestIssuerReadable
        ⟨"", false, sc.issuers, sc.defaultDomains, false⟩ r = true ↔ ScopeShows e s subj r := by
      intro r
      rw [← requestIssuerReadable_iff hsc]
      unfold requestIssuerReadable
      rw [hsc.allPinned, hadmin]
    simp only [ht, hsc.allJobs, hadmin, Bool.false_or, any_eq_true, Bool.and_eq_true,
      beq_iff_eq, hsame, Bool.false_eq_true, false_or, request?_eq_some]
    constructor
    · rintro ⟨r, hr, ⟨htr, hid⟩, hshows⟩
      exact ⟨r, ⟨hr, hid, htr⟩, hshows⟩
    · rintro ⟨r, ⟨hr, hid, htr⟩, hshows⟩
      exact ⟨r, hr, ⟨htr, hid⟩, hshows⟩

theorem onPages_requests (hQ : P.listQuery.Lawful) (hfault : e.fault = .ok) (hord : OrdersTexts P)
    (hidx : s.Indexed P) (hr : r ∈ s.requests.rows) (ht : r.tenantID = subj.tenantID)
    (hstatus : admitsText status (requestStatusText r.status) = true)
    (hreq : (P.listQuery.new req requestList).2 = true) :
    OnPages e s (fun rounds => pageRequests P rounds subj status) RequestView.id req r.id ↔
      Asked subj r ∨ ScopeShows e s subj r := by
  obtain ⟨sc, hsc, hscope⟩ := observe_scope hfault hord hidx subj
  rw [onPages_iff_mem hQ hreq requestView RequestView.id (fun _ => rfl)
    fun rounds hrounds req => observe_pageRequests hfault (hscope rounds hrounds) status req]
  have hadmits : admitsRequest subj.tenantID status sc r = true ↔
      Asked subj r ∨ ScopeShows e s subj r := by
    rw [admitsRequest_iff hsc]
    simp [ht, hstatus]
  rw [← hadmits]
  constructor
  · rintro ⟨r', hr', hid⟩
    obtain ⟨hmem, hp⟩ := mem_filter.1 hr'
    exact Table.eq_of_key_eq hmem hr hid ▸ hp
  · exact fun hp => ⟨r, mem_filter.2 ⟨hr, hp⟩, rfl⟩

theorem onPages_jobs (hQ : P.listQuery.Lawful) (hfault : e.fault = .ok) (hord : OrdersTexts P)
    (hidx : s.Indexed P) (hj : j ∈ s.jobs.rows) (ht : j.tenantID = subj.tenantID)
    (hstatus : admitsText status (jobStatusText j.status) = true)
    (hreq : (P.listQuery.new req jobList).2 = true) :
    OnPages e s (fun rounds => pageJobs P rounds subj status) JobView.id req j.id ↔
      subj.isAdmin = true ∨
        ∃ r, s.request? subj.tenantID j.requestID = some r ∧ ScopeShows e s subj r := by
  obtain ⟨sc, hsc, hscope⟩ := observe_scope hfault hord hidx subj
  rw [onPages_iff_mem hQ hreq jobView JobView.id (fun _ => rfl)
    fun rounds hrounds req => observe_pageJobs hfault (hscope rounds hrounds) status req]
  have hadmits : admitsJob s subj.tenantID status { sc with actor := "" } j = true ↔
      subj.isAdmin = true ∨
        ∃ r, s.request? subj.tenantID j.requestID = some r ∧ ScopeShows e s subj r := by
    rw [admitsJob_iff hsc]
    simp [ht, hstatus]
  rw [← hadmits]
  constructor
  · rintro ⟨j', hj', hid⟩
    obtain ⟨hmem, hp⟩ := mem_filter.1 hj'
    exact Table.eq_of_key_eq hmem hj hid ▸ hp
  · exact fun hp => ⟨j, mem_filter.2 ⟨hj, hp⟩, rfl⟩

theorem located_of_issuerOf (hidx : s.Indexed P) (hpin : r.issuerID = none)
    (hid : issuerOf P s subj.tenantID r = some id) : Located s subj.tenantID .issuer id := by
  obtain ⟨i, hi, ht, -, -, rfl⟩ := (issuerOf_none_iff hidx hpin).1 hid
  exact Issue.located_issuer hi ht

/-- Through the request of a job, lists and check differ as they do on the request, except that
administrators pass both when the request is not pinned. -/
theorem job_route_iff (hP : ParsesURLs P parseIPv6) (hfault : e.fault = .ok) (hidx : s.Indexed P)
    (r : CertificateRequest) :
    ((subj.isAdmin = true ∨ ScopeShows e s subj r) ↔
        (subj.isAdmin = true ∧ issuerOf P s subj.tenantID r = none) ∨ CheckShows P e s subj r) ↔
      ¬ (IssuerApart P s subj e.clock r ∧ (subj.isAdmin = true → r.issuerID.isSome = true)) := by
  have hshows : (ScopeShows e s subj r ↔ CheckShows P e s subj r) ↔
      ¬ IssuerApart P s subj e.clock r := shows_iff hP hfault hidx r
  cases hadmin : subj.isAdmin with
  | false =>
    rw [← hshows.not_left]
    simp
  | true =>
    cases hpin : r.issuerID with
    | some id =>
      have hscope : ScopeShows e s subj r := by
        unfold ScopeShows
        rw [hpin]
        exact lists_of_admin hadmin
      have hissuer : issuerOf P s subj.tenantID r ≠ none := by
        unfold issuerOf
        rw [hpin]
        exact Option.some_ne_none id
      rw [iff_true_left hscope] at hshows
      simpa [hissuer] using hshows
    | none =>
      have hpasses : issuerOf P s subj.tenantID r = none ∨ CheckShows P e s subj r := by
        cases hissuer : issuerOf P s subj.tenantID r with
        | none => exact .inl rfl
        | some id => exact .inr ⟨id, hissuer, located_of_issuerOf hidx hpin hissuer, .inl hadmin⟩
      simpa using hpasses

theorem request_agrees_iff (hP : ParsesURLs P parseIPv6) (hQ : P.listQuery.Lawful)
    (hord : OrdersTexts P) (hfault : e.fault = .ok) (hidx : s.Indexed P) (hr : r ∈ s.requests.rows)
    (ht : r.tenantID = subj.tenantID)
    (hstatus : admitsText status (requestStatusText r.status) = true)
    (hreq : (P.listQuery.new req requestList).2 = true) :
    (OnPages e s (fun rounds => pageRequests P rounds subj status) RequestView.id req r.id ↔
        observe e s (authorizeReadRequest P subj r) = .ok ()) ↔
      ¬ RequestApart P s subj e.clock r := by
  rw [onPages_requests hQ hfault hord hidx hr ht hstatus hreq, authorizeReadRequest_iff hfault]
  unfold RequestApart
  by_cases hasked : Asked subj r
  · simp [hasked]
  · simp only [hasked, false_or, not_false_eq_true, true_and]
    exact shows_iff hP hfault hidx r

theorem job_agrees_iff (hP : ParsesURLs P parseIPv6) (hQ : P.listQuery.Lawful)
    (hord : OrdersTexts P) (hfault : e.fault = .ok) (hidx : s.Indexed P) (hj : j ∈ s.jobs.rows) (ht : j.tenantID = subj.tenantID)
    (hstatus : admitsText status (jobStatusText j.status) = true)
    (hreq : (P.listQuery.new req jobList).2 = true) :
    (OnPages e s (fun rounds => pageJobs P rounds subj status) JobView.id req j.id ↔
        observe e s (authorizeJob P subj j .read) = .ok ()) ↔ ¬ JobApart P s subj e.clock j := by
  rw [onPages_jobs hQ hfault hord hidx hj ht hstatus hreq, authorizeJob_iff hfault]
  unfold JobApart
  cases hrow : s.request? subj.tenantID j.requestID with
  | none =>
    -- without its request only administrators see the job
    have hnone : ∀ r ∈ s.requests.rows, r.id = j.requestID → r.tenantID ≠ subj.tenantID := by
      intro r hr hid htr
      cases hrow.symm.trans (request?_eq_some.2 ⟨hr, hid, htr⟩)
    constructor
    · rintro - ⟨r, hr, hid, htr, -⟩
      exact hnone r hr hid htr
    · intro
      simp
  | some r =>
    obtain ⟨hr, hid, htr⟩ := request?_eq_some.1 hrow
    have hapart : (∃ r ∈ s.requests.rows, r.id = j.requestID ∧ r.tenantID = subj.tenantID ∧
        IssuerApart P s subj e.clock r ∧ (subj.isAdmin = true → r.issuerID.isSome = true)) ↔
        IssuerApart P s subj e.clock r ∧ (subj.isAdmin = true → r.issuerID.isSome = true) := by
      constructor
      · rintro ⟨r', hr', hid', -, h⟩
        exact Table.eq_of_key_eq hr' hr (hid'.trans hid.symm) ▸ h
      · exact fun h => ⟨r, hr, hid, htr, h⟩
    rw [hapart, ← job_route_iff hP hfault hidx r]
    simp [CheckShows]

end Lists

/-! ## A request for another tenant's issuer -/

section Sample

open Lcm.Sample

theorem platform_ordersTexts : OrdersTexts platform where
  irrefl a := decide_eq_false (List.lt_irrefl a.toList)
  trans a b c hab hbc := by
    have hab' : a.toList < b.toList := of_decide_eq_true hab
    have hbc' : b.toList < c.toList := of_decide_eq_true hbc
    exact decide_eq_true (List.lt_trans hab' hbc')
  total a b hne := by
    by_contra hnot
    refine hne (String.toList_inj.1 (List.le_antisymm (fun hlt => hnot (.inr ?_))
      fun hlt => hnot (.inl ?_)))
    · exact decide_eq_true hlt
    · exact decide_eq_true hlt
  empty a hne := by
    obtain ⟨c, cs, hcs⟩ := exists_cons_of_ne_nil fun h => hne (String.toList_eq_nil_iff.1 h)
    refine decide_eq_true ?_
    show "".toList < a.toList
    rw [hcs]
    exact List.Lex.nil

/-- A user and an administrator of another tenant. -/
def otherUser : Subjects := ⟨2, "bob", [], ""⟩

def otherAdmin : Subjects := ⟨2, "eve", ["admin"], ""⟩

/-- The user asks for a certificate of the first tenant's issuer. -/
def requested : Database :=
  ((submitRequest platform otherUser ⟨some 3, "spiffe://td/b", "", 3600, []⟩).run.exec
    (fun _ => env 50) 0 database []).1

end Sample

end Lcm.Enroll
