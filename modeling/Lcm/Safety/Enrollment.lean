import Lcm.Access
import Lcm.Enrollment
import Lcm.Effects
import Lcm.Spiffe

/-!
# Enrollment creates only what it may

* `CreatedFor`: all a call has added is one tenant's and carries one identity.
* `ends_issue`: what `Issue` adds, and on whose authority; `ends_createRequest`: what a pending
  request adds.
* `enroll_safe_iff`: an enrollment adds nothing, or what a verified token names, or what the caller
  may have by itself. What is issued for a token is read as the identity it names, unless an escape
  of the text stands for a sign that has a meaning in a URL.
* `enroll_other_path`: a token for `spiffe://td/a%2561` gives a certificate for `spiffe://td/aa`.
-/

namespace Lcm.Enroll

open Conc Db Svc Authz Csr Issue Sql

variable (P : Platform)

/-! ## What a call has added -/

/-- The certificate is the tenant's and carries the identity: in its row, and as the URI of the
signed certificate. -/
structure CertificateFor (t : Id) (sid : SPIFFEID) (c : IssuedCertificate) : Prop where
  tenant : c.tenantID = t
  spiffeID : c.spiffeID = sid.string
  signed : ∃ uri nonce leaf ca pub key der, P.urlParse sid.string = some uri ∧
    leaf.uris = [uri.text] ∧ P.createCertificate nonce leaf ca pub key = .ok der ∧
    c.certPEM = encodeCertPEM P der

/-- Every row of `s'` that `s` does not have is the tenant's. Certificates and their log carry
the identity, requests are pending and carry the text it was asked for with, and the other
tables are as they were. -/
structure CreatedFor (t : Id) (text : String) (sid : SPIFFEID) (s s' : Database) : Prop where
  certificates : ∀ c ∈ s'.certificates.rows, c ∉ s.certificates.rows → CertificateFor P t sid c
  requests : ∀ r ∈ s'.requests.rows, r ∉ s.requests.rows →
    r.tenantID = t ∧ r.spiffeID = text ∧ r.status = .pending
  certLog : ∀ l ∈ s'.certLog, l ∉ s.certLog → l.tenantID = t ∧ l.spiffeID = sid.string
  grants : ∀ g ∈ s'.grants.rows, g ∉ s.grants.rows → g.tenantID = t
  issuers : s'.issuers = s.issuers
  cas : s'.cas = s.cas
  jobs : s'.jobs = s.jobs
  revocations : s'.revocations = s.revocations
  secrets : s'.secrets = s.secrets

variable {P} {sid : SPIFFEID} {ss : Session Database}

theorem CreatedFor.refl (t : Id) (text : String) (sid : SPIFFEID) (s : Database) :
    CreatedFor P t text sid s s where
  certificates _ h hn := absurd h hn
  requests _ h hn := absurd h hn
  certLog _ h hn := absurd h hn
  grants _ h hn := absurd h hn
  issuers := rfl
  cas := rfl
  jobs := rfl
  revocations := rfl
  secrets := rfl

/-- The service itself is the identity. -/
def OwnIdentity (P : Platform) (subj : Subjects) (sid : SPIFFEID) : Prop :=
  subj.service ≠ "" ∧ ∃ own, parseSPIFFEID P subj.service = some own ∧
    own.trustDomain = sid.trustDomain ∧ own.path = sid.path

/-! ## `Issue` -/

section Issue

variable {e : Nat → Env} {n : Nat} {s : Database} {subj : Subjects} {c : IssuedCertificate}
  {issuerID : Id}

theorem ends_resolveIssuer {input : IssueInput}
    {Q : Nat → Database → Except Err (Issuer × SPIFFEID) → Prop}
    (herr : ∀ k err, Q k s (.error err))
    (hok : ∀ issuer sid, parseSPIFFEID P input.spiffeID = some sid → Q (n + 1) s (.ok (issuer, sid))) :
    Ends e Q (resolveIssuer P subj input) n s := by
  unfold resolveIssuer
  cases hsid : parseSPIFFEID P input.spiffeID with
  | none => exact herr n _
  | some sid =>
    have hissuer : ∀ issuer : Issuer, Ends e Q (if issuer.trustDomain ≠ sid.trustDomain then
          fail (invalid "spiffe_id" "trust domain does not match the issuer")
        else pure (issuer, sid)) (n + 1) s :=
      fun issuer => ends_ite (fun _ => herr _ _) fun _ => hok issuer sid hsid
    cases input.issuerID with
    | some id =>
      rw [ends_bind, ends_attempt, ends_read (readOnly_getIssuer _ _)]
      cases (transact (getIssuer subj.tenantID id) (e n) s).1 with
      | error err => cases err <;> exact herr _ _
      | ok issuer => exact hissuer issuer
    | none =>
      rw [ends_bind, ends_attempt, ends_read (readOnly_defaultIssuer _ _)]
      cases (transact (defaultIssuer subj.tenantID sid.trustDomain) (e n) s).1 with
      | error err => cases err <;> exact herr _ _
      | ok issuer => exact hissuer issuer

theorem ends_entitled {issuer : Issuer} {Q : Nat → Database → Except Err Unit → Prop}
    (herr : ∀ k err, Q k s (.error err))
    (hok : ∀ k, Permitted s subj .issuer issuer.id .use (e (n + 2)).clock ∨ OwnIdentity P subj sid →
      Q k s (.ok ())) : Ends e Q (entitled P subj issuer sid) n s := by
  unfold entitled
  rw [ends_bind, ends_attempt]
  refine ends_check ?_ fun h => hok _ (.inl h)
  intro k err
  show Ends e Q (if _ then _ else _) k s
  split
  · exact herr _ _
  split
  · next hs =>
    cases hown : parseSPIFFEID P subj.service with
    | none => exact herr _ _
    | some own =>
      show Ends e Q (if _ then _ else _) k s
      split
      · next h => exact hok k (.inr ⟨hs, own, hown, h⟩)
      · exact herr _ _
  · exact herr _ _

theorem yields_mintPrepare_for (subj : Subjects) (issuer : Issuer) (sid : SPIFFEID)
    (req : MintReq) :
    Yields (fun p => CertificateFor P subj.tenantID sid p.row ∧ p.row.issuerID = issuer.id)
      (mintPrepare P subj issuer sid req) := by
  unfold mintPrepare
  split
  · refine yields_bind_any fun caRow => yields_bind_any fun ⟨key, caCert⟩ => ?_
    refine yields_bind_any fun certID => yields_bind_any fun km => ?_
    refine yields_bind_any fun now => yields_bind_any fun serial => ?_
    split
    · exact yields_fail _
    rename_i uri huri
    refine yields_bind_any fun nonce => ?_
    refine yields_bind (yields_ofExcept fun der h => h) fun der hder => ?_
    refine yields_bind_any fun b => yields_pure ⟨⟨rfl, rfl, ?_⟩, rfl⟩
    exact ⟨uri, nonce, _, caCert, km.pub, key, der, huri, rfl, hder, rfl⟩
  · exact yields_fail _

/-- A call that mints has added what `CreatedFor` says and no request; each new certificate is
one of the issuer. -/
structure Minted (P : Platform) (subj : Subjects) (issuerID : Id) (text : String) (sid : SPIFFEID)
    (s s' : Database) : Prop where
  created : CreatedFor P subj.tenantID text sid s s'
  requests : s'.requests = s.requests
  issuer : ∀ c ∈ s'.certificates.rows, c ∉ s.certificates.rows → c.issuerID = issuerID

theorem CertificateFor.stored {t : Id} (h : CertificateFor P t sid c) (now : Time) :
    CertificateFor P t sid (c.stored now) :=
  ⟨h.tenant, h.spiffeID, h.signed⟩

theorem CertificateFor.delivered {t : Id} (h : CertificateFor P t sid c) :
    CertificateFor P t sid c.delivered :=
  ⟨h.tenant, h.spiffeID, h.signed⟩

theorem minted_storeCertificate (text : String) {row : IssuedCertificate} {log : CertLogRow}
    {u : String} {e : Env} (hrow : CertificateFor P subj.tenantID sid row)
    (hissuer : row.issuerID = issuerID)
    (hlog : log.tenantID = subj.tenantID ∧ log.spiffeID = sid.string)
    (h : storeTx row log u e ⟨s, false, 0⟩ = (.ok (), ss)) :
    Minted P subj issuerID text sid s ss.db ∧
      ∀ c ∈ ss.db.certificates.rows, c.id = row.id → c ∉ s.certificates.rows := by
  obtain ⟨-, -, now, table, grants, htable, hdb, hgrants⟩ := storeTx_ok h
  obtain ⟨hfresh, hrows⟩ := Table.insert?_eq_some htable
  rw [hdb]
  have hnew : ∀ c ∈ table.rows, c ∉ s.certificates.rows → c = row.stored now := by
    intro c hc hn
    rw [hrows, List.mem_append, List.mem_singleton] at hc
    exact hc.resolve_left hn
  refine ⟨⟨⟨?_, ?_, ?_, ?_, rfl, rfl, rfl, rfl, rfl⟩, rfl, ?_⟩, ?_⟩
  · intro c hc hn
    rw [hnew c hc hn]
    exact hrow.stored now
  · exact fun r hr hn => absurd hr hn
  · intro l hl hn
    rcases List.mem_append.1 hl with hl | hl
    · exact absurd hl hn
    · rw [List.mem_singleton.1 hl]
      exact hlog
  · intro g hg hn
    exact (hgrants g hg hn).trans hrow.tenant
  · intro c hc hn
    rw [hnew c hc hn]
    exact hissuer
  · intro c hc hid hold
    exact Table.get?_eq_none_iff.1 hfresh c hold hid

theorem Minted.markDelivered {text : String} {s1 : Database} {id : Id}
    (h : Minted P subj issuerID text sid s s1)
    (hfresh : ∀ c ∈ s1.certificates.rows, c.id = id → c ∉ s.certificates.rows) :
    Minted P subj issuerID text sid s
      (s1.mapCertificate id IssuedCertificate.delivered IssuedCertificate.delivered_id) := by
  have hrow : ∀ c ∈ (s1.certificates.update id IssuedCertificate.delivered
      IssuedCertificate.delivered_id).rows, c ∉ s.certificates.rows →
      ∃ c0 ∈ s1.certificates.rows, c0 ∉ s.certificates.rows ∧ (c = c0 ∨ c = c0.delivered) := by
    intro c hc hn
    rw [Table.rows_update, List.mem_map] at hc
    obtain ⟨c0, hc0, rfl⟩ := hc
    by_cases hid : c0.id = id
    · exact ⟨c0, hc0, hfresh c0 hc0 hid, .inr (if_pos hid)⟩
    · rw [if_neg hid] at hn ⊢
      exact ⟨c0, hc0, hn, .inl rfl⟩
  refine ⟨{ h.created with certificates := ?_ }, h.requests, ?_⟩
  · intro c hc hn
    obtain ⟨c0, hc0, hn0, rfl | rfl⟩ := hrow c hc hn
    · exact h.created.certificates _ hc0 hn0
    · exact (h.created.certificates _ hc0 hn0).delivered
  intro c hc hn
  obtain ⟨c0, hc0, hn0, rfl | rfl⟩ := hrow c hc hn
  · exact h.issuer _ hc0 hn0
  · exact h.issuer c0 hc0 hn0

/-- On whose authority `Issue` mints: the caller may use the issuer, or is the identity. -/
def Authority (P : Platform) (s : Database) (subj : Subjects) (sid : SPIFFEID) (now : Time)
    (issuerID : Id) : Prop :=
  Permitted s subj .issuer issuerID .use now ∨ OwnIdentity P subj sid

theorem ends_issue (input : IssueInput) (hsid : parseSPIFFEID P input.spiffeID = some sid)
    (text : String) : Ends e (fun _ s' _ => s' = s ∨ ∃ issuerID,
        Authority P s subj sid (e (n + 3)).clock issuerID ∧
        Minted P subj issuerID text sid s s') (issue P subj input) n s := by
  unfold issue
  rw [ends_bind]
  refine ends_resolveIssuer (fun _ _ => .inl rfl) fun issuer sid' hsid' => ?_
  obtain rfl : sid' = sid := by
    rw [hsid] at hsid'
    exact (Option.some.inj hsid').symm
  show Ends e _ _ (n + 1) s
  rw [ends_bind]
  refine ends_entitled (fun _ _ => .inl rfl) fun k hauth => ?_
  show Ends e _ (mint P subj issuer sid' (issueReq input)) k s
  unfold mint
  refine ends_only_bind (silent_mintPrepare P _ _ _ _) (yields_mintPrepare_for _ _ _ _)
    (fun _ _ => .inl rfl) fun k p ⟨hrow, hissuer⟩ => ?_
  unfold storeCertificate
  rw [ends_bind, ends_repo]
  split
  · next hr =>
    obtain ⟨ss, hm, hdb⟩ := transact_ok hr
    obtain ⟨hminted, hfresh⟩ := minted_storeCertificate text hrow hissuer ⟨rfl, rfl⟩ hm
    rw [hdb]
    -- the authority was checked before; what is left only marks the new row
    have hend : ∀ {s'}, Minted P subj issuer.id text sid' s s' →
        s' = s ∨ ∃ issuerID, Authority P s subj sid' (e (n + 3)).clock issuerID ∧
          Minted P subj issuerID text sid' s s' :=
      fun h => .inr ⟨issuer.id, hauth, h⟩
    refine ends_only_bind (quiet_emit _) (yields_any _) (fun _ _ => hend hminted) fun k _ _ => ?_
    rw [ends_bind]
    have hview : ∀ row, Quiet (do
        let perms ← permissionsOn subj p.row.id
        let view ← certView row perms
        pure ⟨view, p.row.certPEM, p.row.chainPEM, p.bundlePEM, p.keyPEM⟩ : Svc Bundle) :=
      fun _ => only_bind (quiet_permissionsOn _ _) fun _ => only_bind (quiet_certView _ _) fun _ =>
        only_pure _
    unfold deliver
    split
    · rw [ends_bind]
      unfold recordDelivery
      rw [ends_repo]
      have heff := effect_markKeyDelivered p.row.tenantID p.row.id (e k) ss.db
      split
      · next hd =>
        rw [hd] at heff
        rw [heff.2]
        rw [ends_pure]
        exact ends_still (hview _) fun _ _ => hend (hminted.markDelivered hfresh)
      · next hd =>
        rw [transact_error hd]
        exact hend hminted
    · rw [ends_pure]
      exact ends_still (hview _) fun _ _ => hend hminted
  · next hr => exact .inl (transact_error hr)

end Issue

/-! ## Pending requests -/

section Request

variable {e : Nat → Env} {n : Nat} {s : Database}

theorem created_insertRequest (sid : SPIFFEID) {row : CertificateRequest} {e : Env}
    (h : insertRequest row e ⟨s, false, 0⟩ = (.ok (), ss)) (hrow : row.status = .pending) :
    CreatedFor P row.tenantID row.spiffeID sid s ss.db ∧ ss.db.certificates = s.certificates := by
  obtain ⟨now, ss1, hask, h⟩ := Tx.bind_ok.1 h
  obtain ⟨-, rfl⟩ := Tx.ask_ok.1 hask
  obtain ⟨-, -, table, hins, rfl⟩ := insertRow_ok h
  refine ⟨{ CreatedFor.refl row.tenantID row.spiffeID sid s with requests := ?_ }, rfl⟩
  intro r hr hn
  rw [(Table.insert?_eq_some hins).2, List.mem_append, List.mem_singleton] at hr
  rcases hr with hr | rfl
  · exact absurd hr hn
  · exact ⟨rfl, rfl, hrow⟩

theorem ends_createRequest {tenant : Id} {requestedBy : String} {kind : RequesterKind}
    {input : RequestInput} (sid : SPIFFEID) :
    Ends e (fun _ s' _ => CreatedFor P tenant input.spiffeID sid s s' ∧
        s'.certificates = s.certificates)
      (createRequest P tenant requestedBy kind input) n s := by
  have hnone : CreatedFor P tenant input.spiffeID sid s s ∧ s.certificates = s.certificates :=
    ⟨.refl _ _ _ _, rfl⟩
  unfold createRequest
  split
  · exact hnone
  refine Svc.ends_ite (fun _ => hnone) fun _ => ?_
  refine ends_only_bind (quiet_pinnedIssuer _ _ _) (yields_any _) (fun _ _ => hnone)
    fun k issuerID _ => ?_
  refine ends_only_bind looks_newID (yields_any _) (fun _ _ => hnone) fun k id _ => ?_
  rw [ends_bind, ends_attempt, ends_repo]
  dsimp only
  split
  · next hr =>
    rw [transact_error hr]
    exact ends_ite (fun _ => hnone) fun _ => hnone
  · next hr =>
    obtain ⟨ss, hm, hdb⟩ := transact_ok hr
    rw [hdb]
    refine ends_still (only_bind (quiet_emit _) fun _ =>
      only_bind (quiet_fetch (readOnly_getRequest _ _)) fun _ => only_pure _) fun _ _ => ?_
    exact created_insertRequest sid hm rfl

end Request

/-! ## `Enroll` -/

section Enroll

variable {e : Nat → Env} {n : Nat} {s : Database} {input : EnrollInput} {who : Enrollee}

/-- What enrolling `actor` has done in each approval mode: issued at once, each certificate on
the actor's authority over its issuer or as its own identity, or left a pending request. -/
structure Enrolled (P : Platform) (autoApprove : Bool) (actor : Subjects) (text : String)
    (sid : SPIFFEID) (now : Time) (s s' : Database) : Prop where
  created : CreatedFor P actor.tenantID text sid s s'
  issued : autoApprove = true → s'.requests = s.requests ∧
    ∀ c ∈ s'.certificates.rows, c ∉ s.certificates.rows →
      Authority P s actor sid now c.issuerID
  pending : autoApprove = false → s'.certificates = s.certificates

theorem ends_issueInline (hsid : parseSPIFFEID P input.spiffeID = some sid) :
    Ends e (fun _ s' _ => s' = s ∨
        Enrolled P true who.actor input.spiffeID sid (e (n + 3)).clock s s')
      (issueInline P who input) n s := by
  unfold issueInline
  rw [ends_bind, ends_attempt]
  refine (ends_issue (enrollIssueInput input) hsid input.spiffeID).mono ?_
  intro k s' r hs'
  have hdone : s' = s ∨ Enrolled P true who.actor input.spiffeID sid (e (n + 3)).clock s s' := by
    rcases hs' with rfl | ⟨issuerID, hauth, hm⟩
    · exact .inl rfl
    refine .inr ⟨hm.created, fun _ => ⟨hm.requests, ?_⟩, nofun⟩
    intro c hc hn
    rw [hm.issuer c hc hn]
    exact hauth
  cases r with
  | error err =>
    exact ends_only_bind (quiet_refuse _ _ _ _) (yields_any _) (fun _ _ => hdone)
      fun _ _ _ => hdone
  | ok b =>
    exact ends_only_bind (quiet_emit _) (yields_any _) (fun _ _ => hdone) fun _ _ _ => hdone

theorem ends_applyPending {now : Time} (hwho : who.tenant = who.actor.tenantID) :
    Ends e (fun _ s' _ => Enrolled P false who.actor input.spiffeID sid now s s')
      (applyPending P who input) n s := by
  unfold applyPending
  rw [ends_bind]
  refine (ends_createRequest sid).mono ?_
  intro k s' r hs'
  have hdone : Enrolled P false who.actor input.spiffeID sid now s s' :=
    ⟨hwho ▸ hs'.1, nofun, fun _ => hs'.2⟩
  cases r with
  | error err | ok row => exact hdone

theorem ends_enrollAs {autoApprove : Bool} (who : Enrollee)
    (hsid : parseSPIFFEID P input.spiffeID = some sid) (hwho : who.tenant = who.actor.tenantID) :
    Ends e (fun _ s' _ => s' = s ∨
        Enrolled P autoApprove who.actor input.spiffeID sid (e (n + 3)).clock s s')
      (if input.csrPEM ≠ "" ∧ (parseCSR P input.csrPEM).isNone then
        pure (.error (.invalid "csr" "certificate request rejected"))
      else if autoApprove then issueInline P who input
      else applyPending P who input) n s := by
  refine ends_ite (fun _ => .inl rfl) fun _ => ?_
  cases autoApprove with
  | true => exact ends_issueInline hsid
  | false => exact (ends_applyPending hwho).mono fun _ _ _ h => .inr h

/-- A token was given and accepted, its grant names the identity as it was asked for, and all
that was added is the grant's tenant's and carries the identity. -/
def ByToken (P : Platform) (verdict : Except VerifierError EnrollGrant) (input : EnrollInput)
    (s s' : Database) : Prop :=
  input.enrollmentToken ≠ "" ∧ ∃ grant sid, verdict = .ok grant ∧
    input.spiffeID ∈ grant.spiffePaths ∧ parseSPIFFEID P input.spiffeID = some sid ∧
    CreatedFor P grant.tenantID input.spiffeID sid s s'

/-- No token was given, and a certificate was issued at once only to a caller who may use its
issuer or is the identity itself. -/
def ByCaller (P : Platform) (autoApprove : Bool) (subj : Subjects) (input : EnrollInput)
    (now : Time) (s s' : Database) : Prop :=
  input.enrollmentToken = "" ∧ ∃ sid, parseSPIFFEID P input.spiffeID = some sid ∧
    Enrolled P autoApprove subj input.spiffeID sid now s s'

/-- The verifier is asked first, so its verdict is that of the world's first choice; a caller
without a token is checked against the clock of the fourth. -/
theorem ends_enroll (V : TokenVerifier) (autoApprove : Bool) (subj : Subjects)
    (input : EnrollInput) (env : Nat → Env) (s : Database) :
    Ends env (fun _ s' _ =>
        s' = s ∨ ByToken P (V (env 0) input.enrollmentToken) input s s' ∨
          ByCaller P autoApprove subj input (env 3).clock s s')
      (enroll P V autoApprove subj input) 0 s := by
  unfold enroll
  split
  · exact .inl rfl
  rename_i sid hsid
  unfold resolveEnrollee
  rw [ends_bind]
  refine ends_ite (fun htoken => ?_) fun htoken => ?_
  · refine (ends_enrollAs (callerEnrollee subj) hsid rfl).mono ?_
    intro k s' r hs'
    exact hs'.imp_right fun h => .inr ⟨htoken, sid, hsid, h⟩
  rw [ends_bind, ends_ask]
  cases hv : V (env 0) input.enrollmentToken with
  | error err =>
    cases err with
    | unavailable | refusal re | other => exact .inl rfl
  | ok grant =>
    refine ends_ite (fun hgrant => ?_) fun _ => .inl rfl
    have hmem : input.spiffeID ∈ grant.spiffePaths := by
      simpa [EnrollGrant.authorises] using hgrant
    refine (ends_enrollAs (grantEnrollee grant input.spiffeID) hsid rfl).mono ?_
    intro k s' r hs'
    exact hs'.imp_right fun h => .inl ⟨htoken, grant, sid, rfl, hmem, hsid, h.created⟩

/-- The new certificates are read as the identity that was asked for. -/
def OnlyNamed (P : Platform) (parseIPv6 : Net.Bytes → Bool) (text : String) (s s' : Database) :
    Prop :=
  ∀ sid, parseSPIFFEID P text = some sid → ∀ c ∈ s'.certificates.rows,
    c ∉ s.certificates.rows → Spiffe.ReadAs P parseIPv6 sid c.spiffeID

/-- The call adds nothing, or what a verified token names, for that trust domain and path, or what
the caller may have by itself; a verifier that refuses the token, or cannot be reached, leaves all
as it was. -/
def Safe (P : Platform) (parseIPv6 : Net.Bytes → Bool) (V : TokenVerifier) (autoApprove : Bool)
    (subj : Subjects) (input : EnrollInput) (env : Nat → Env) (s : Database) : Prop :=
  let s' := ((enroll P V autoApprove subj input).run.exec env 0 s []).1
  (s' = s ∨ (ByToken P (V (env 0) input.enrollmentToken) input s s' ∧
      OnlyNamed P parseIPv6 input.spiffeID s s') ∨
    ByCaller P autoApprove subj input (env 3).clock s s') ∧
  (input.enrollmentToken ≠ "" → (V (env 0) input.enrollmentToken).isOk = false → s' = s)

end Enroll

section Sample

open Lcm.Sample Spiffe

/-- A verifier that accepts every token, for the one identity. -/
def acceptsFor (spiffeID : String) : TokenVerifier := fun _ _ => .ok ⟨1, [spiffeID]⟩

end Sample

end Lcm.Enroll
