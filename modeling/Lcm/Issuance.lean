import Lcm.Access
import Lcm.Effects
import Lcm.Service.Along
import Lcm.Transfer.Invariants

/-!
# What the calls of issuance and of issuer administration do

`Does` says of every step of these calls what it has done to the database (`Effect`) and, where
the step follows from what the call has seen before, from what (`Because`): the issuer a
certificate comes from, the CA a leaf is signed with, the row an administrator's update starts
from, the permission an approval rests on. `sound_issuance` proves it once for each call; the
results about runs look into no program again.
-/

namespace Lcm

open Conc Db Svc Ca Issue List Sql Config

/-- The calls that issue certificates and those that administer issuers and CAs. -/
def Call.OnIssuance : Call → Prop
  | issue _ _ | obtainACMEFor _ _ _ _ _ _ _ | renew _ _ | renewSystem _ _ => True
  | approveRequest _ _ _ | processJob _ | enroll _ _ _ _ => True
  | createIssuer _ _ | updateIssuer _ _ _ | deleteIssuer _ _ | importBackup _ _ _ => True
  | ensureCA _ _ | signLeaf _ _ _ _ _ => True
  | _ => False

/-- The event is the `Atomic` of a call that writes issuers. -/
def Ev.WritesIssuers : Ev → Prop
  | insertIssuer _ _ | updateIssuer _ _ | deleteIssuer _ _ _ | importBackup _ _ _ _ => True
  | _ => False

def Ev.WritesCertificates : Ev → Prop
  | insertCertificate _ _ | markKeyDelivered _ _ _ | setCertificateStatus _ _ _ _ _ => True
  | _ => False

def Ev.WritesRequests : Ev → Prop
  | insertRequest _ _ | approve _ _ _ _ | updateJob _ _ | recordResult _ _ _ _ => True
  | _ => False

/-- The certificate that the event has stored. -/
def Ev.mints? : Ev → Option IssuedCertificate
  | insertCertificate row (.ok ()) => some row
  | _ => none

variable {ev : Ev} {row : IssuedCertificate} {i issuer : Issuer} {s s' : Database} {t id : Id}
  {td : String} {want : Option Id} {ca : CA} {k m : Nat} {sid : Csr.SPIFFEID} {e : Env}
  {subj : Subjects} {φ : Env → Database → Prop}

theorem Ev.mints?_eq_some (h : ev.mints? = some row) : ev = .insertCertificate row (.ok ()) := by
  unfold mints? at h
  split at h
  · cases h
    rfl
  · cases h

def Call.Renews : Call → Prop
  | renew _ _ | renewSystem _ _ => True
  | _ => False

/-- The tenant of a call that signs, and the longest time its certificate may be valid. -/
def Call.lifetime? : Call → Option (Id × Duration)
  | issue subj input => some (subj.tenantID, clampValidity input.validitySeconds)
  | renew subj _ => some (subj.tenantID, maxValiditySeconds * second)
  | renewSystem t _ => some (t, maxValiditySeconds * second)
  | signLeaf t _ _ _ ttl => some (t, ttl)
  | _ => none

/-- The issuer of a request for the trust domain: the one asked for, or the default. -/
def Database.issuerFor (s : Database) (t : Id) (want : Option Id) (trustDomain : String) :
    Option Issuer :=
  match want with
  | some id => (s.issuers.get? id).filter fun i => i.tenantID == t
  | none => s.issuers.rows.find? fun i =>
    i.tenantID == t && i.trustDomain == trustDomain && i.isDefault

theorem Database.issuerFor_mem (h : s.issuerFor t want td = some i) :
    i ∈ s.issuers.rows ∧ i.tenantID = t := by
  unfold issuerFor at h
  split at h
  · rw [Option.filter_eq_some_iff] at h
    exact ⟨Table.get?_mem h.1, by simpa using h.2⟩
  have hp := find?_some h
  simp only [Bool.and_eq_true, beq_iff_eq] at hp
  exact ⟨mem_of_find?_eq_some h, hp.1.1⟩

namespace Issuance

/-- What the call signs under a CA of the tenant lasts no longer than the call may make it. -/
def Lasts (c : Call) (t : Id) (d : Duration) : Prop :=
  (∀ t td, c ≠ .ensureCA t td) ∧
    ∀ t' longest, c.lifetime? = some (t', longest) → t' = t ∧ d ≤ longest

section Definitions

variable (P : Platform) (may : Nat → Env → Database → Prop)

/-- `EnsureCA` has found the CA active, or returned it from its transaction. -/
def Ensured (h : Trail Ev) (k : Nat) (t : Id) (trustDomain : String) (ca : CA) : Prop :=
  (Saw may h k fun e s => (transact (caByState t trustDomain .active) e s).1 = .ok ca) ∨
    (k, .ensureCA t trustDomain (.ok ca)) ∈ h

/-- The CA has been read, or ensured. -/
def Found (h : Trail Ev) (k : Nat) (t : Id) (ca : CA) : Prop :=
  (∃ id, Saw may h k fun e s => (transact (getCA t id) e s).1 = .ok ca) ∨
    ∃ td, Ensured may h k t td ca

/-- A job asks for what its request says. -/
def AskedBy (c : Call) (h : Trail Ev) (k : Nat) (t : Id) (want : Option Id)
    (sid : Csr.SPIFFEID) : Prop :=
  ∀ job, c = .processJob job → t = job.tenantID ∧ ∃ req k₀, k₀ < k ∧
    (Saw may h k₀ fun _ s => s.request? job.tenantID job.requestID = some req) ∧
    want = req.issuerID ∧ Csr.parseSPIFFEID P req.spiffeID = some sid

/-- How the issuer of a certificate has been chosen, which was read at place `k`. -/
inductive Chosen (c : Call) (h : Trail Ev) (t : Id) (sid : Csr.SPIFFEID) (issuer : Issuer)
    (k : Nat) : Prop where
  /-- the issuer asked for, or the default -/
  | asked (want : Option Id)
      (hread : Saw may h k fun _ s => s.issuerFor t want sid.trustDomain = some issuer)
      (hdomain : issuer.trustDomain = sid.trustDomain)
      (hsid : ∃ text, Csr.parseSPIFFEID P text = some sid) (hjob : AskedBy P may c h k t want sid)
  /-- the issuer of the certificate that is renewed -/
  | renewed (old : IssuedCertificate) (id : Id) (k₀ : Nat) (hk : k₀ < k)
      (hget : (k₀, .getCertificate t id (.ok old)) ∈ h)
      (hold : Saw may h k₀ fun _ s => s.certificate? t old.id = some old)
      (hread : Saw may h k fun _ s =>
        s.issuerFor t (some old.issuerID) sid.trustDomain = some issuer)
      (hsid : Csr.parseSPIFFEID P old.spiffeID = some sid) (hkind : old.kind ≠ some .generic)
      (hjob : ∀ job, c ≠ .processJob job)

/-- The certificate is signed under the CA of the issuer, whose certificate is its chain, and the
bundle is the one of its trust domain, read afterwards. -/
def Chained (c : Call) (h : Trail Ev) (certPEM chainPEM bundlePEM : String) : Prop :=
  ∃ t sid issuer k₀ caID ca k₁ cas k₂, Chosen P may c h t sid issuer k₀ ∧
    issuer.type = .selfSigned ∧ issuer.caID = some caID ∧ k₀ < k₁ ∧
    (Saw may h k₁ fun e s => (transact (getCA t caID) e s).1 = .ok ca) ∧ k₁ < k₂ ∧
    (Saw may h k₂ fun e s =>
      (transact (casForDomain t sid.trustDomain) e s).1 = .ok cas) ∧
    (∃ key caCert nonce leaf pub der, signer P ca = .ok (key, caCert) ∧
      P.createCertificate nonce leaf caCert pub key = .ok der ∧
      certPEM = Csr.encodeCertPEM P der) ∧
    chainPEM = ca.certPEM ∧
    bundlePEM = String.join ((cas.filter fun c => c.state == .active || c.state == .retiring).map
      CA.certPEM)

/-- The issuer a certificate comes from. -/
def Sourced (c : Call) (h : Trail Ev) (row : IssuedCertificate) : Prop :=
  ∃ issuer k, (k, .readIssuer (.ok issuer)) ∈ h ∧ row.issuerID = issuer.id ∧
    (Saw may h k fun _ s => issuer ∈ s.issuers.rows ∧ issuer.tenantID = row.tenantID) ∧
    (row.kind = some .generic ∧ (∀ job, c ≠ .processJob job) ∨
      row.kind = none ∧ issuer.type = .selfSigned ∧
        ∃ sid : Csr.SPIFFEID, row.spiffeID = sid.string ∧
          Chosen P may c h row.tenantID sid issuer k)

/-- The issuer whose write permission an approval asks for: the one the request names, or the
default of its trust domain. -/
def Routed (t id : Id) (h : Trail Ev) (issuerID : Id) : Prop :=
  ∃ req k₀, (Saw may h k₀ fun _ s => s.request? t id = some req) ∧
    (req.issuerID = some issuerID ∨ req.issuerID = none ∧ ∃ sid issuer k₁, k₀ < k₁ ∧
      Csr.parseSPIFFEID P req.spiffeID = some sid ∧ issuer.id = issuerID ∧
      Saw may h k₁ fun _ s => s.issuerFor t none sid.trustDomain = some issuer)

/-- The caller has been seen to hold the permission. -/
def Held (subj : Subjects) (type : ResourceType) (id : Id) (a : Authz.Action) (h : Trail Ev) :
    Prop :=
  ∃ k k' now, k < k' ∧
    (Saw may h k fun _ s => subj.isAdmin = true ∨ Authz.Granted s subj type id a now) ∧
    Saw may h k' fun e _ => e.clock = now

/-- Why a step does what it does. -/
def Because (c : Call) (h : Trail Ev) (e : Env) (s : Database) (ev : Ev) (s' : Database) : Prop :=
  match ev with
  | .sign leaf parent => ∃ t ca key k₁ k₂, k₁ < k₂ ∧ Found may h k₁ t ca ∧
      signer P ca = .ok (key, parent) ∧ (Saw may h k₂ fun e _ => e.clock = leaf.notBefore) ∧
      Lasts c t (leaf.notAfter - leaf.notBefore)
  | .ensureCA t td r => transact (ensureTx P t td) e s = (r, s')
  | .insertIssuer row r => (∀ x ∈ h, ¬x.2.WritesIssuers) ∧
      ∃ subj input id type caID blob shown, c = .createIssuer subj input ∧
        validate input = .ok type ∧ row = newIssuer subj input id type caID blob shown ∧
        (type = .selfSigned → ∃ ca k, caID = some ca.id ∧
          Ensured may h k subj.tenantID input.trustDomain ca) ∧
        transact (createTx P subj row) e s = (r, s')
  | .updateIssuer row r => (∀ x ∈ h, ¬x.2.WritesIssuers) ∧
      ∃ subj id input old blob shown k, c = .updateIssuer subj id input ∧
        (Saw may h k fun _ s => s.issuerFor subj.tenantID (some id) "" = some old) ∧
        row = IssuerInput.apply input subj old blob shown ∧
        transact (updateTx P old.isDefault row) e s = (r, s')
  | .deleteIssuer t id r => (∃ subj, c = .deleteIssuer subj id) ∧
      transact (deleteTx t id) e s = (r, s')
  | .importBackup t doc mode r => ∃ subj, c = .importBackup subj doc mode ∧ t = subj.tenantID ∧
      transact (Transfer.importTx P subj doc mode) e s = (r, s')
  | .insertCertificate row _ => Stored s s' ∧ Sourced P may c h row
  | .recordResult _ _ _ _ => Worked s s'
  | .approve t id _ _ => Worked s s' ∧ ∃ subj reason issuerID, c = .approveRequest subj id reason ∧
      t = subj.tenantID ∧ Routed P may t id h issuerID ∧ Held may subj .issuer issuerID .write h
  -- no step of these calls
  | .updateCertificate _ _ | .revoke _ _ _ | .deleteCertificate _ _ _ | .completeRequest _ _ _ _
  | .setRequestStatus _ _ _ _ | .claimDueJobs _ | .dueForRenewal _ | .writeGrants
  | .writeCredentials => False
  | _ => True

/-- What a step of a call does, and why. -/
structure Does (c : Call) (h : Trail Ev) (e : Env) (s : Database) (ev : Ev) (s' : Database) :
    Prop where
  effect : Effect s ev s'
  because : Because P may c h e s ev s'

/-- The call renews a certificate of an ACME order, by another order. -/
def OrdersAgain (h : Trail Ev) : Prop :=
  ∃ k t id old, (k, .getCertificate t id (.ok old)) ∈ h ∧ old.kind = some .generic

/-- What a call that has minted returns. -/
def Outcome (c : Call) (h : Trail Ev) (r : Except Err Value) : Prop :=
  ∀ b, r = .ok (.bundle b) →
    Chained P may c h b.certPEM b.chainPEM b.bundlePEM ∨
      (∃ subj rid iid ds csr d a, c = .obtainACMEFor subj rid iid ds csr d a) ∨
      c.Renews ∧ OrdersAgain h

def conduct (ops : Call → Prop) : Conduct Env Database Ev Call (Except Err Value) where
  ops := ops
  may := may
  ok c h _ := Does P may c h
  post := Outcome P may

end Definitions

variable {P : Platform} {may : Nat → Env → Database → Prop} {c : Call} {h h' : Trail Ev} {n : Nat}
  {I : Database → Prop} {req : MintReq}

/-! ## What has been seen stays seen -/

theorem Ensured.later (hs : Ensured may h k t td ca) (hh : h <+: h') : Ensured may h' k t td ca :=
  hs.imp (fun hsaw => hsaw.later hh) fun hmem => hh.subset hmem

theorem AskedBy.later (ha : AskedBy P may c h k t want sid) (hh : h <+: h') :
    AskedBy P may c h' k t want sid := by
  intro job hjob
  obtain ⟨ht, req, k0, hk, hreq, hrest⟩ := ha job hjob
  exact ⟨ht, req, k0, hk, hreq.later hh, hrest⟩

theorem Chosen.later (hc : Chosen P may c h t sid issuer k) (hh : h <+: h') :
    Chosen P may c h' t sid issuer k := by
  cases hc with
  | asked want hread hdomain hsid hjob =>
    exact .asked want (hread.later hh) hdomain hsid (hjob.later hh)
  | renewed old id k0 hk hget hold hread hsid hkind hjob =>
    exact .renewed old id k0 hk (hh.subset hget) (hold.later hh) (hread.later hh) hsid hkind hjob

theorem Chained.later {cert chain bundle : String} (hc : Chained P may c h cert chain bundle)
    (hh : h <+: h') : Chained P may c h' cert chain bundle := by
  obtain ⟨t, sid, issuer, k0, caID, ca, k1, cas, k2, hchosen, htype, hca, hk1, hread, hk2, hcas,
    hrest⟩ := hc
  exact ⟨t, sid, issuer, k0, caID, ca, k1, cas, k2, hchosen.later hh, htype, hca, hk1,
    hread.later hh, hk2, hcas.later hh, hrest⟩

/-! ## Steps that need no reason -/

theorem does_looks (h : Trail Ev) (e : Env) (s : Database) (ev : Ev) (hev : ev.Looks) :
    Does P may c h e s ev s := by
  refine ⟨effect_quiet hev.silent, ?_⟩
  cases ev <;> trivial

/-- The program keeps to the conduct of the call `c`. -/
abbrev Runs (P : Platform) (may : Nat → Env → Database → Prop) (c : Call) {α : Type} (m : Svc α)
    (Q : Trail Ev → Nat → α → Prop) (h : Trail Ev) (n : Nat) : Prop :=
  Along may (fun h _ => Does P may c h) m Q h n

section Rules

variable {α β : Type} {Q : Trail Ev → Nat → β → Prop} {f : α → Svc β}

theorem runs_looks_bind {m : Svc α} (hm : Only Ev.Looks m)
    (hf : ∀ h' n' a, h <+: h' → n ≤ n' → (∀ x ∈ h', x ∈ h ∨ x.2.Looks) → Runs P may c (f a) Q h' n') :
    Runs P may c (m >>= f) Q h n :=
  along_only_bind (fun h _ e s ev hev _ => does_looks h e s ev hev) hm hf

theorem runs_quiet_bind {m : Svc α} (hm : Quiet m)
    (hf : ∀ h' n' a, h <+: h' → n ≤ n' → (∀ x ∈ h', x ∈ h ∨ x.2.Looks) → Runs P may c (f a) Q h' n') :
    Runs P may c (m >>= f) Q h n :=
  runs_looks_bind (hm.mono fun _ => Ev.Quiet.looks) hf

theorem runs_last {m : Svc α} (hm : Quiet m) {Q : Trail Ev → Nat → α → Prop}
    (hQ : ∀ h' n' a, h <+: h' → n ≤ n' → Q h' n' a) : Runs P may c m Q h n := by
  refine Prog.Along.mono ?_ (Prog.Along.grow (along_only
    (fun h _ e s ev hev _ => does_looks h e s ev hev) (hm.mono fun _ => Ev.Quiet.looks) (yields_any m)))
  rintro h' n' r ⟨hh, hn, -⟩ a -
  exact hQ h' n' a hh hn

theorem runs_fetch {tx : Sql α} (htx : tx.ReadOnly) :
    Runs P may c (fetch tx) (fun h' n' a => ∃ k, n ≤ k ∧ k < n' ∧
      Saw may h' k fun e s => (transact tx e s).1 = .ok a) h n := by
  refine (along_read htx fun m e s _ _ => does_looks h e s .read trivial).mono ?_
  rintro h' n' a ⟨k, hn, hk, -, hsaw⟩
  exact ⟨k, hn, hk, hsaw⟩

theorem runs_readIssuer {tx : Sql Issuer} (htx : tx.ReadOnly) :
    Runs P may c (repo .readIssuer tx) (fun h' n' i => ∃ k, n ≤ k ∧ k < n' ∧
      (k, .readIssuer (.ok i)) ∈ h' ∧ Saw may h' k fun e s => (transact tx e s).1 = .ok i) h n :=
  along_read htx fun _ e s _ _ => does_looks h e s _ trivial

theorem runs_now : Runs P may c Svc.now (fun h' n' t => ∃ k, n ≤ k ∧ k < n' ∧
    Saw may h' k fun e _ => e.clock = t) h n :=
  along_ask fun m e s hm hmay => ⟨does_looks h e s _ trivial, m, hm, Nat.lt_succ_self m, .look, e, s,
    by simp, hmay, rfl⟩

end Rules

theorem issuerFor_of_getIssuer (h : (transact (getIssuer t id) e s).1 = .ok i) :
    s.issuerFor t (some id) td = some i :=
  found_eq_ok.1 (transact_query_ok h)

theorem stored_of_getIssuer (h : (transact (getIssuer t id) e s).1 = .ok i) :
    i ∈ s.issuers.rows ∧ i.tenantID = t :=
  have hfor : s.issuerFor t (some id) "" = some i := issuerFor_of_getIssuer h
  Database.issuerFor_mem hfor

theorem issuerFor_of_defaultIssuer (h : (transact (defaultIssuer t td) e s).1 = .ok i) :
    s.issuerFor t none td = some i :=
  found_eq_ok.1 (transact_query_ok h)

/-! ## Issuance -/

theorem runs_resolveIssuer (subj : Subjects) (input : IssueInput) :
    Runs P may c (resolveIssuer P subj input) (fun h' n' r => ∃ k, n ≤ k ∧ k < n' ∧
      (k, .readIssuer (.ok r.1)) ∈ h' ∧
      (Saw may h' k fun _ s =>
        s.issuerFor subj.tenantID input.issuerID r.2.trustDomain = some r.1) ∧
      r.1.trustDomain = r.2.trustDomain ∧
      Csr.parseSPIFFEID P input.spiffeID = some r.2) h n := by
  unfold resolveIssuer
  split
  · exact along_fail _
  rename_i sid hsid
  refine along_bind (R := fun h' n' r => ∀ issuer, r = .ok issuer → ∃ k, n ≤ k ∧ k < n' ∧
    (k, .readIssuer (.ok issuer)) ∈ h' ∧ Saw may h' k fun _ s =>
      s.issuerFor subj.tenantID input.issuerID sid.trustDomain = some issuer) ?_ ?_
  · refine along_attempt ?_ fun _ _ _ _ _ _ h => by cases h
    cases hid : input.issuerID with
    | some id =>
      refine (runs_readIssuer (readOnly_getIssuer _ _)).mono ?_
      rintro h' n' i ⟨k, hn, hk, hev, hsaw⟩ _ ⟨⟩
      exact ⟨k, hn, hk, hev, hsaw.mono fun _ _ => issuerFor_of_getIssuer⟩
    | none =>
      refine (runs_readIssuer (readOnly_defaultIssuer _ _)).mono ?_
      rintro h' n' i ⟨k, hn, hk, hev, hsaw⟩ _ ⟨⟩
      exact ⟨k, hn, hk, hev, hsaw.mono fun _ _ => issuerFor_of_defaultIssuer⟩
  · intro h' n' r _ _ hr
    split
    · exact along_fail _
    · exact along_fail _
    rename_i issuer
    refine along_ite (fun _ => along_fail _) fun htd => along_pure ?_
    obtain ⟨k, hn, hk, hev, hsaw⟩ := hr issuer rfl
    exact ⟨k, hn, hk, hev, hsaw, not_not.1 htd, hsid⟩

theorem runs_bundle (t : Id) (td : String) :
    Runs P may c (bundle t td) (fun h' n' b => ∃ cas k, n ≤ k ∧ k < n' ∧
      (Saw may h' k fun e s => (transact (casForDomain t td) e s).1 = .ok cas) ∧
      b = String.join ((cas.filter fun c => c.state == .active || c.state == .retiring).map
        CA.certPEM)) h n := by
  refine along_bind (runs_fetch (readOnly_casForDomain t td)) ?_
  rintro h' n' cas - - ⟨k, hn, hk, hsaw⟩
  exact along_pure ⟨cas, k, hn, hk, hsaw, rfl⟩

theorem lasts_of_none (hne : ∀ t td, c ≠ .ensureCA t td) (hc : c.lifetime? = none) (t : Id)
    (d : Duration) : Lasts c t d := by
  refine ⟨hne, fun t' longest h => ?_⟩
  rw [hc] at h
  cases h

theorem lasts_of_some {d : Duration} (hne : ∀ t td, c ≠ .ensureCA t td)
    (hc : c.lifetime? = some (t, d)) : Lasts c t d := by
  refine ⟨hne, fun t' longest h => ?_⟩
  rw [hc] at h
  cases h
  exact ⟨rfl, le_refl d⟩

theorem Lasts.mono {d d' : Duration} (h : Lasts c t d) (hd : d' ≤ d) : Lasts c t d' := by
  refine ⟨h.1, fun t' longest hc => ?_⟩
  obtain ⟨ht, hle⟩ := h.2 t' longest hc
  exact ⟨ht, le_trans hd hle⟩

theorem runs_mintPrepare (hlife : Lasts c subj.tenantID (clampValidity req.validitySeconds))
    (hk : k < n) (hchosen : Chosen P may c h subj.tenantID sid issuer k) :
    Runs P may c (mintPrepare P subj issuer sid req) (fun h' _ p =>
      issuer.type = .selfSigned ∧ p.row.issuerID = issuer.id ∧ p.row.tenantID = subj.tenantID ∧
      p.row.spiffeID = sid.string ∧ p.row.kind = none ∧
      Chained P may c h' p.row.certPEM p.row.chainPEM p.bundlePEM) h n := by
  unfold mintPrepare
  split
  · next caID htype hca =>
    refine along_bind (runs_fetch (readOnly_getCA _ _)) ?_
    rintro h1 n1 ca hh1 hn1 ⟨k1, hk1, hlt1, hread⟩
    refine along_ofExcept_bind fun ⟨key, caCert⟩ hsigner => ?_
    refine runs_looks_bind looks_newID fun h2 n2 certID hh2 hn2 _ => ?_
    refine runs_looks_bind (looks_mintKey P _ _) fun h3 n3 km hh3 hn3 _ => ?_
    refine along_bind runs_now ?_
    rintro h4 n4 now hh4 hn4 ⟨k2, hk2, hlt2, hclock⟩
    refine runs_quiet_bind quiet_randomSerial fun h5 n5 serial hh5 hn5 _ => ?_
    have hh : h1 <+: h5 := ((hh2.trans hh3).trans hh4).trans hh5
    split
    · exact along_fail _
    rename_i uri huri
    refine along_bind (R := fun _ _ _ => True) ?_ ?_
    · refine along_ask fun m e s _ _ => ⟨⟨rfl, ?_⟩, trivial⟩
      refine ⟨subj.tenantID, ca, key, k1, k2, by omega, .inl ⟨caID, hread.later hh⟩, hsigner,
        hclock.later hh5, ?_⟩
      exact hlife.mono (le_of_eq (add_sub_cancel_left now _))
    rintro h6 n6 nonce hh6 hn6 -
    refine along_ofExcept_bind fun der hder => ?_
    refine along_bind (runs_bundle _ _) ?_
    rintro h7 n7 bundlePEM hh7 hn7 ⟨cas, k3, hk3, hlt3, hcas, hbundle⟩
    have hall : h1 <+: h7 := (hh.trans hh6).trans hh7
    refine along_pure ⟨htype, rfl, rfl, rfl, rfl, ?_⟩
    exact ⟨subj.tenantID, sid, issuer, k, caID, ca, k1, cas, k3,
      hchosen.later (hh1.trans hall), htype, hca, by omega, hread.later hall, by omega, hcas,
      ⟨key, caCert, nonce, _, _, der, hsigner, hder, rfl⟩, rfl, hbundle⟩
  · exact along_fail _

theorem runs_storeCertificate (hsource : Sourced P may c h row) (log : CertLogRow) (u : String) :
    Runs P may c (storeCertificate row log u) (fun _ _ _ => True) h n :=
  along_repo fun _ e s _ _ => ⟨⟨effect_storeCertificate row log u e s,
    stored_storeCertificate row log u e s, hsource⟩, fun _ _ => trivial⟩

theorem runs_mint (hlife : Lasts c subj.tenantID (clampValidity req.validitySeconds)) (hk : k < n)
    (hread : (k, .readIssuer (.ok issuer)) ∈ h)
    (hstored : Saw may h k fun _ s => issuer ∈ s.issuers.rows ∧ issuer.tenantID = subj.tenantID)
    (hchosen : Chosen P may c h subj.tenantID sid issuer k) :
    Runs P may c (mint P subj issuer sid req) (fun h' _ b =>
      Chained P may c h' b.certPEM b.chainPEM b.bundlePEM) h n := by
  refine along_bind (runs_mintPrepare hlife hk hchosen) ?_
  rintro h1 n1 p hh1 hn1 ⟨htype, hissuer, htenant, hspiffe, hkind, hchain⟩
  have hsource : Sourced P may c h1 p.row := by
    refine ⟨issuer, k, hh1.subset hread, hissuer, ?_, .inr ⟨hkind, htype, sid, hspiffe, ?_⟩⟩
    · rw [htenant]
      exact hstored.later hh1
    · rw [htenant]
      exact hchosen.later hh1
  refine along_bind (runs_storeCertificate hsource _ _) ?_
  rintro h2 n2 _ hh2 hn2 -
  refine runs_quiet_bind (quiet_emit _) fun h3 n3 _ hh3 hn3 _ => ?_
  refine along_bind (R := fun _ _ _ => True) ?_ ?_
  · refine along_ite (fun _ => ?_) fun _ => along_pure trivial
    refine along_bind (R := fun _ _ _ => True) ?_ fun _ _ _ _ _ _ => along_pure trivial
    exact along_repo fun _ e s _ _ =>
      ⟨⟨effect_markKeyDelivered _ _ e s, trivial⟩, fun _ _ => trivial⟩
  rintro h4 n4 row hh4 hn4 -
  refine runs_quiet_bind (quiet_permissionsOn _ _) fun h5 n5 perms hh5 hn5 _ => ?_
  refine runs_quiet_bind (quiet_certView _ _) fun h6 n6 view hh6 hn6 _ => ?_
  exact along_pure (hchain.later ((((hh2.trans hh3).trans hh4).trans hh5).trans hh6))

theorem stored_of_issuerFor (hs : Saw may h k fun _ s => s.issuerFor t want td = some i) :
    Saw may h k fun _ s => i ∈ s.issuers.rows ∧ i.tenantID = t :=
  hs.mono fun _ _ => Database.issuerFor_mem

theorem runs_issue {input : IssueInput}
    (hlife : Lasts c subj.tenantID (clampValidity input.validitySeconds))
    (hask : ∀ h' k sid, h <+: h' → n ≤ k → Csr.parseSPIFFEID P input.spiffeID = some sid → AskedBy P may c h' k subj.tenantID input.issuerID sid)
    : Runs P may c (issue P subj input) (fun h' _ b =>
      Chained P may c h' b.certPEM b.chainPEM b.bundlePEM) h n := by
  refine along_bind (runs_resolveIssuer subj input) ?_
  rintro h1 n1 ⟨issuer, sid⟩ hh1 hn1 ⟨k, hnk, hk, hread, hsaw, hdomain, hsid⟩
  refine runs_quiet_bind (quiet_entitled P _ _ _) fun h2 n2 _ hh2 hn2 _ => ?_
  have hsaw2 := hsaw.later hh2
  refine runs_mint hlife (by omega) (hh2.subset hread) (stored_of_issuerFor hsaw2) ?_
  exact .asked _ hsaw2 hdomain ⟨_, hsid⟩ (hask h2 k sid (hh1.trans hh2) hnk hsid)

/-! ## Renewal and orders -/

/-- What a renewal returns: a certificate of the CA, or the result of an ACME order. -/
def Renewed (P : Platform) (may : Nat → Env → Database → Prop) (c : Call) (h : Trail Ev)
    (b : Bundle) : Prop :=
  Chained P may c h b.certPEM b.chainPEM b.bundlePEM ∨ OrdersAgain h

theorem runs_supersede (t : Id) (old : IssuedCertificate) (id : Id) :
    Runs P may c (supersede t old id) (fun _ _ _ => True) h n :=
  along_repo fun _ e s _ _ =>
    ⟨⟨effect_setCertificateStatus t old.id old.status (some id) e s, trivial⟩, fun _ _ => trivial⟩

theorem runs_viewStored (subj : Subjects) (id : Id) :
    Runs P may c (viewStored subj id) (fun _ _ _ => True) h n := by
  refine along_bind (R := fun _ _ _ => True) ?_ fun _ _ _ _ _ _ => ?_
  · exact along_repo fun _ e s _ _ =>
      ⟨⟨effect_getCertificate subj.tenantID id e s, trivial⟩, fun _ _ => trivial⟩
  · refine runs_quiet_bind (quiet_permissionsOn _ _) fun _ _ _ _ _ _ => ?_
    exact runs_last (quiet_certView _ _) fun _ _ _ _ _ => trivial

theorem runs_renewPrepare (hcall : ∀ job, c ≠ .processJob job) (subj : Subjects)
    (old : IssuedCertificate) :
    Runs P may c (renewPrepare P subj old) (fun h' _ o => Sourced P may c h' o.row) h n := by
  refine along_ofExcept_bind fun domains _ => ?_
  refine along_bind (runs_readIssuer (readOnly_getIssuer _ _)) ?_
  rintro h1 n1 issuer hh1 hn1 ⟨k, hnk, hk, hread, hsaw⟩
  refine along_ofExcept_bind fun _ _ => ?_
  refine runs_quiet_bind (quiet_askExcept _) fun h2 n2 _ hh2 hn2 _ => ?_
  refine runs_looks_bind looks_newID fun h3 n3 certID hh3 hn3 _ => ?_
  refine runs_looks_bind (looks_renewKey P old) fun h4 n4 key hh4 hn4 _ => ?_
  refine runs_quiet_bind (quiet_look _) fun h5 n5 nonce hh5 hn5 _ => ?_
  refine along_ofExcept_bind fun der _ => along_ofExcept_bind fun pem _ => ?_
  refine runs_quiet_bind (quiet_sealKey P _ _) fun h6 n6 blob hh6 hn6 _ => ?_
  refine runs_looks_bind (looks_obtain _ _) fun h7 n7 chain hh7 hn7 _ => ?_
  refine along_ofExcept_bind fun leaf _ => ?_
  refine runs_quiet_bind quiet_now fun h8 n8 now hh8 hn8 _ => along_pure ?_
  have hh : h1 <+: h8 := (((((hh2.trans hh3).trans hh4).trans hh5).trans hh6).trans hh7).trans hh8
  refine ⟨issuer, k, hh.subset hread, rfl, ?_, .inl ⟨rfl, hcall⟩⟩
  exact (hsaw.later hh).mono fun _ _ => stored_of_getIssuer

theorem runs_renewACME (hcall : ∀ job, c ≠ .processJob job) (subj : Subjects)
    (old : IssuedCertificate) :
    Runs P may c (renewACME P subj old) (fun h' _ _ => h <+: h') h n := by
  refine along_bind (runs_renewPrepare hcall subj old) fun h1 n1 o hh1 _ hsource => ?_
  refine along_bind (runs_storeCertificate hsource _ _) fun h2 n2 _ hh2 _ _ => ?_
  refine along_bind (runs_supersede _ _ _) fun h3 n3 _ hh3 _ _ => ?_
  refine runs_quiet_bind (quiet_emit _) fun h4 n4 _ hh4 _ _ => ?_
  refine along_bind (runs_viewStored _ _) fun h5 n5 view hh5 _ _ => along_pure ?_
  exact (((hh1.trans hh2).trans hh3).trans hh4).trans hh5

theorem certificate?_of_getCertificate (h : (transact (getCertificate t id) e s).1 = .ok row) :
    s.certificate? t row.id = some row ∧ row.tenantID = t := by
  have hrow := found_eq_ok.1 (transact_query_ok h)
  obtain ⟨hmem, rfl, rfl⟩ := Database.certificate?_eq_some.1 hrow
  exact ⟨hrow, rfl⟩

theorem runs_renewCert (hcall : ∀ job, c ≠ .processJob job)
    (hlife : Lasts c subj.tenantID (maxValiditySeconds * second)) {old : IssuedCertificate}
    {k0 : Nat} (hk0 : k0 < n) (hget : (k0, .getCertificate subj.tenantID id (.ok old)) ∈ h)
    (hold : Saw may h k0 fun _ s => s.certificate? subj.tenantID old.id = some old) :
    Runs P may c (renewCert P subj old) (fun h' _ b => Renewed P may c h' b) h n := by
  refine along_ite (fun hkind => ?_) fun hkind => ?_
  · refine (runs_renewACME hcall subj old).mono fun h' _ _ hh => .inr ?_
    exact ⟨k0, subj.tenantID, id, old, hh.subset hget, hkind⟩
  split
  · exact along_fail _
  rename_i sid hsid
  refine along_bind (runs_readIssuer (readOnly_getIssuer _ _)) ?_
  rintro h1 n1 issuer hh1 hn1 ⟨k, hnk, hk, hread, hsaw⟩
  have hfor : Saw may h1 k fun _ s =>
      s.issuerFor subj.tenantID (some old.issuerID) sid.trustDomain = some issuer :=
    hsaw.mono fun _ _ => issuerFor_of_getIssuer
  have hchosen : Chosen P may c h1 subj.tenantID sid issuer k :=
    .renewed old id k0 (by omega) (hh1.subset hget) (hold.later hh1) hfor hsid hkind hcall
  refine along_bind (runs_mint (hlife.mono (clampValidity_le _)) hk hread
    (stored_of_issuerFor hfor) hchosen) ?_
  rintro h2 n2 b hh2 hn2 hchain
  refine along_bind (runs_supersede _ _ _) fun h3 n3 _ hh3 _ _ => along_pure ?_
  exact .inl (hchain.later hh3)

theorem runs_loadCertificate (t id : Id) :
    Runs P may c (loadCertificate t id) (fun h' n' row => ∃ k, k < n' ∧
      (k, .getCertificate t id (.ok row)) ∈ h' ∧
      Saw may h' k fun _ s => s.certificate? t row.id = some row) h n := by
  refine (along_read (readOnly_getCertificate t id) fun m e s _ _ => ?_).mono ?_
  · have heffect := effect_getCertificate t id e s
    exact ⟨⟨rfl, heffect.2⟩, trivial⟩
  · rintro h' n' row ⟨k, hn, hk, hget, hsaw⟩
    exact ⟨k, hk, hget, hsaw.mono fun _ _ hr => (certificate?_of_getCertificate hr).1⟩

theorem runs_renewSystem (t id : Id) :
    Runs P may (.renewSystem t id) (renewSystem P t id)
      (fun h' _ b => Renewed P may (.renewSystem t id) h' b) h n := by
  refine along_bind (runs_loadCertificate _ _) ?_
  rintro h2 n2 old - - ⟨k, hk, hget, hold⟩
  exact runs_renewCert (fun _ h => by cases h) (lasts_of_some (fun _ _ h => by cases h) rfl)
    hk hget hold

theorem runs_renew (subj : Subjects) (id : Id) :
    Runs P may (.renew subj id) (renew P subj id)
      (fun h' _ b => Renewed P may (.renew subj id) h' b) h n := by
  refine runs_quiet_bind (Authz.quiet_check _ _ _ _) fun h1 n1 _ _ _ _ => ?_
  refine along_bind (runs_loadCertificate _ _) ?_
  rintro h2 n2 old - - ⟨k, hk, hget, hold⟩
  exact runs_renewCert (fun _ h => by cases h) (lasts_of_some (fun _ _ h => by cases h) rfl)
    hk hget hold

theorem runs_precheckACME (subj : Subjects) (id : Id) :
    Runs P may c (precheckACME subj id) (fun h' _ issuer => ∃ k,
      (k, .readIssuer (.ok issuer)) ∈ h' ∧
      Saw may h' k fun _ s => issuer ∈ s.issuers.rows ∧ issuer.tenantID = subj.tenantID) h n := by
  refine along_bind (R := fun h' _ r => ∀ issuer, r = .ok issuer → ∃ k,
    (k, .readIssuer (.ok issuer)) ∈ h' ∧
    Saw may h' k fun _ s => issuer ∈ s.issuers.rows ∧ issuer.tenantID = subj.tenantID) ?_ ?_
  · refine along_attempt ?_ fun _ _ _ _ _ _ h => by cases h
    refine (runs_readIssuer (readOnly_getIssuer _ _)).mono ?_
    rintro h' n' i ⟨k, -, -, hread, hsaw⟩ _ ⟨⟩
    exact ⟨k, hread, hsaw.mono fun _ _ => stored_of_getIssuer⟩
  intro h1 n1 r _ _ hr
  split
  · exact along_fail _
  · exact along_fail _
  rename_i issuer
  obtain ⟨k, hread, hsaw⟩ := hr issuer rfl
  refine along_ite (fun _ => along_fail _) fun _ => ?_
  refine runs_quiet_bind (only_attempt (Authz.quiet_check _ _ _ _)) fun h2 n2 r hh2 _ _ => ?_
  split
  · exact along_pure ⟨k, hh2.subset hread, hsaw.later hh2⟩
  · exact along_fail _

section Orders

variable (hcall : ∀ job, c ≠ .processJob job) (subj : Subjects) (requestID : Option Id)
  (issuerID : Id) (domains : List String) (csr : String) (d a : Bool)

include hcall

theorem runs_obtainACME :
    Runs P may c (obtainACME P subj requestID issuerID domains csr d a) (fun _ _ _ => True) h n := by
  refine along_bind (R := fun h' _ o => Sourced P may c h' o.row) ?_ fun h1 n1 o _ _ hsource => ?_
  · refine along_ofExcept_bind fun domains _ => ?_
    refine along_bind (runs_precheckACME subj issuerID) ?_
    rintro h1 n1 issuer hh1 hn1 ⟨k, hread, hsaw⟩
    refine along_ofExcept_bind fun _ _ => ?_
    refine runs_quiet_bind (quiet_askExcept _) fun h2 n2 _ hh2 hn2 _ => ?_
    refine runs_looks_bind looks_newID fun h3 n3 certID hh3 hn3 _ => ?_
    refine runs_looks_bind (looks_orderKey P _ _ _ _) fun h4 n4 key hh4 hn4 _ => ?_
    refine runs_looks_bind (looks_obtain _ _) fun h5 n5 chain hh5 hn5 _ => ?_
    refine along_ofExcept_bind fun leaf _ => ?_
    refine runs_quiet_bind quiet_now fun h6 n6 now hh6 hn6 _ => along_pure ?_
    have hh : h1 <+: h6 := (((hh2.trans hh3).trans hh4).trans hh5).trans hh6
    exact ⟨issuer, k, hh.subset hread, rfl, hsaw.later hh, .inl ⟨rfl, hcall⟩⟩
  · refine along_bind (runs_storeCertificate hsource _ _) fun h2 n2 _ _ _ _ => ?_
    refine runs_quiet_bind (quiet_emit _) fun h3 n3 _ _ _ _ => ?_
    exact along_bind (runs_viewStored _ _) fun _ _ _ _ _ _ => along_pure trivial

theorem runs_obtainACMEFor :
    Runs P may c (obtainACMEFor P subj requestID issuerID domains csr d a)
      (fun _ _ _ => True) h n := by
  refine along_bind (R := fun _ _ _ => True) ?_ fun h1 n1 r _ _ _ => ?_
  · exact along_attempt (runs_obtainACME hcall subj requestID issuerID domains csr d a)
      fun _ _ _ _ _ => trivial
  split
  · exact along_pure trivial
  · refine along_ite (fun _ => ?_) fun _ => along_fail _
    exact runs_quiet_bind (quiet_emit _) fun _ _ _ _ _ _ => along_fail _

end Orders

/-! ## Requests, jobs and enrollment -/

open Enroll

theorem asked_of_ne (hcall : ∀ job, c ≠ .processJob job) (h : Trail Ev) (k : Nat) (t : Id)
    (want : Option Id) (sid : Csr.SPIFFEID) : AskedBy P may c h k t want sid :=
  fun job hjob => absurd hjob (hcall job)

theorem runs_createRequest (t : Id) (who : String) (kind : RequesterKind) (input : RequestInput) :
    Runs P may c (createRequest P t who kind input) (fun _ _ _ => True) h n := by
  unfold createRequest
  split
  · exact along_pure trivial
  refine along_ite (fun _ => along_pure trivial) fun _ => ?_
  refine runs_quiet_bind (quiet_pinnedIssuer _ _ _) fun _ _ issuerID _ _ _ => ?_
  refine runs_looks_bind looks_newID fun _ _ id _ _ _ => ?_
  refine along_bind (R := fun _ _ _ => True) ?_ fun _ _ r _ _ _ => ?_
  · refine along_attempt (along_repo fun _ e s _ _ => ⟨?_, fun _ _ => trivial⟩)
      fun _ _ _ _ _ => trivial
    exact ⟨effect_insertRequest _ e s, trivial⟩
  split
  · exact along_ite (fun _ => along_pure trivial) fun _ => along_fail _
  refine runs_quiet_bind (quiet_emit _) fun _ _ _ _ _ _ => ?_
  exact runs_quiet_bind (quiet_fetch (readOnly_getRequest _ _)) fun _ _ _ _ _ _ =>
    along_pure trivial

theorem runs_enroll (V : TokenVerifier) (autoApprove : Bool) (verdict : Except VerifierError EnrollGrant)
    (subj : Subjects) (input : EnrollInput) :
    Runs P may (.enroll autoApprove verdict subj input) (enroll P V autoApprove subj input) (fun _ _ _ => True) h n := by
  unfold enroll
  split
  · exact along_pure trivial
  refine runs_quiet_bind (quiet_resolveEnrollee P V _ _ _) fun _ _ r _ _ _ => ?_
  split
  · exact along_pure trivial
  refine along_ite (fun _ => along_pure trivial) fun _ => along_ite (fun _ => ?_) fun _ => ?_
  · refine along_bind (R := fun _ _ _ => True) ?_ fun _ _ r _ _ _ => ?_
    · refine along_attempt (Along.mono (fun _ _ _ _ => trivial)
        (runs_issue (lasts_of_none (fun _ _ h => by cases h) rfl _ _) fun h' k sid _ _ _ =>
          asked_of_ne (fun _ h => by cases h) h' k _ _ sid))
        fun _ _ _ _ _ => trivial
    split
    · exact runs_quiet_bind (quiet_refuse _ _ _ _) fun _ _ _ _ _ _ => along_fail _
    · exact runs_quiet_bind (quiet_emit _) fun _ _ _ _ _ _ => along_pure trivial
  · exact along_bind (runs_createRequest _ _ _ _) fun _ _ _ _ _ _ => along_pure trivial

theorem runs_failJob (job : CertificateJob) (msg : String) :
    Runs P may c (failJob job msg) (fun _ _ _ => True) h n := by
  refine along_bind (R := fun _ _ _ => True) ?_ fun _ _ _ _ _ _ => ?_
  · exact along_attempt (along_repo fun _ e s _ _ =>
      ⟨⟨effect_updateJob _ e s, trivial⟩, fun _ _ => trivial⟩) fun _ _ _ _ _ => trivial
  · exact runs_last (quiet_emit _) fun _ _ _ _ _ => trivial

theorem runs_recordResult (job : CertificateJob) (r : CertificateRequest) (certID : Id) :
    Runs P may c (recordResult job r certID) (fun _ _ _ => True) h n := by
  intro m e s _ _
  exact ⟨⟨effect_recordResult job r certID e s, transact_rel (.refl s)
    fun _ _ hm => (recordTx_ok job r certID hm).2⟩, fun _ _ => trivial⟩

theorem runs_processJob (job : CertificateJob) :
    Runs P may (.processJob job) (Enroll.processJob P job) (fun _ _ _ => True) h n := by
  refine along_bind (R := fun _ _ _ => True) ?_ fun h1 n1 _ _ _ _ => ?_
  · exact along_ask fun _ e s _ _ => ⟨⟨rfl, trivial⟩, trivial⟩
  refine along_bind (R := fun h' n' r => ∀ req, r = .ok req → ∃ k, k < n' ∧
    Saw may h' k fun _ s => s.request? job.tenantID job.requestID = some req) ?_ ?_
  · refine along_attempt ?_ fun _ _ _ _ _ _ h => by cases h
    refine (runs_fetch (readOnly_getRequest _ _)).mono ?_
    rintro h' n' req ⟨k, -, hk, hsaw⟩ _ ⟨⟩
    exact ⟨k, hk, hsaw.mono fun _ _ hr => found_eq_ok.1 (transact_query_ok hr)⟩
  intro h2 n2 r _ _ hr
  split
  · exact runs_failJob _ _
  rename_i req
  obtain ⟨k0, hk0, hreq⟩ := hr req rfl
  refine along_bind (R := fun _ _ _ => True) ?_ fun h3 n3 b _ _ _ => ?_
  · refine along_attempt (Along.mono (fun _ _ _ _ => trivial)
        (runs_issue (lasts_of_none (fun _ _ h => by cases h) rfl _ _) ?_))
      fun _ _ _ _ _ => trivial
    -- what the job asks for is what its request says
    rintro h' k sid hh hnk hsid _ ⟨⟩
    exact ⟨rfl, req, k0, Nat.lt_of_lt_of_le hk0 hnk, hreq.later hh, rfl, hsid⟩
  split
  · exact runs_failJob _ _
  refine along_bind (runs_recordResult _ _ _) fun _ _ rr _ _ _ => ?_
  obtain ⟨res, ran⟩ := rr
  cases res with
  | error e => exact runs_failJob _ _
  | ok _ => exact runs_last (quiet_emit _) fun _ _ _ _ _ => trivial

theorem runs_requestIssuerID {req : CertificateRequest} {k0 : Nat} (hk0 : k0 < n)
    (hreq : Saw may h k0 fun _ s => s.request? t id = some req) :
    Runs P may c (requestIssuerID P t req) (fun h' _ x => Routed P may t id h' x) h n := by
  unfold requestIssuerID
  split
  · next x hx => exact along_pure ⟨req, k0, hreq, .inl hx⟩
  rename_i hnone
  split
  · exact along_fail _
  rename_i sid hsid
  refine along_bind (runs_fetch (readOnly_defaultIssuer _ _)) ?_
  rintro h1 n1 issuer hh1 - ⟨k, hnk, -, hsaw⟩
  refine along_pure ⟨req, k0, hreq.later hh1, .inr ⟨hnone, sid, issuer, k, ?_, hsid, rfl, ?_⟩⟩
  · exact Nat.lt_of_lt_of_le hk0 hnk
  · exact hsaw.mono fun _ _ => issuerFor_of_defaultIssuer

theorem runs_check (subj : Subjects) (type : ResourceType) (id : Id) (a : Authz.Action) :
    Runs P may c (Authz.check subj type id a) (fun h' _ _ => Held may subj type id a h') h n := by
  refine along_bind (R := fun h' _ p => Authz.has p a = true → Held may subj type id a h') ?_ ?_
  · refine runs_quiet_bind (Authz.quiet_locate _ _ _) fun h1 n1 _ _ _ _ => ?_
    refine along_bind (runs_fetch (readOnly_grantsOnResource _ _ _)) ?_
    rintro h2 n2 grants - - ⟨k, -, hk, hgrants⟩
    refine along_bind runs_now ?_
    rintro h3 n3 now hh3 - ⟨k', hnk, -, hclock⟩
    refine along_pure fun hhas => ⟨k, k', now, Nat.lt_of_lt_of_le hk hnk, ?_, hclock⟩
    refine (hgrants.later hh3).mono fun e s hr => ?_
    rw [Authz.has_decide] at hhas
    refine hhas.imp_right ?_
    rintro ⟨g, hg, hmatch, hrel⟩
    obtain ⟨hmem, hon⟩ := (Authz.mem_grantsOnResource hr g).1 hg
    exact ⟨g, hmem, hon, hmatch, hrel⟩
  · intro h1 n1 p _ _ hp
    exact along_ite (fun hhas => along_pure (hp hhas)) fun _ => along_fail _

theorem Routed.later {x : Id} (hr : Routed P may t id h x) (hh : h <+: h') :
    Routed P may t id h' x := by
  obtain ⟨req, k0, hreq, hx⟩ := hr
  refine ⟨req, k0, hreq.later hh, hx.imp_right ?_⟩
  rintro ⟨hnone, sid, issuer, k1, hk, hsid, hid, hsaw⟩
  exact ⟨hnone, sid, issuer, k1, hk, hsid, hid, hsaw.later hh⟩

theorem Held.later {type : ResourceType} {a : Authz.Action} (hheld : Held may subj type id a h)
    (hh : h <+: h') : Held may subj type id a h' := by
  obtain ⟨k, k', now, hk, hgrant, hclock⟩ := hheld
  exact ⟨k, k', now, hk, hgrant.later hh, hclock.later hh⟩

theorem runs_approveRequest (subj : Subjects) (id : Id) (reason : String) :
    Runs P may (.approveRequest subj id reason) (Enroll.approveRequest P subj id reason)
      (fun _ _ _ => True) h n := by
  refine along_bind (R := fun h' _ _ => ∃ x, Routed P may subj.tenantID id h' x ∧
    Held may subj .issuer x .write h') ?_ ?_
  · refine along_bind (runs_fetch (readOnly_getRequest _ _)) ?_
    rintro h1 n1 req - - ⟨k0, -, hk0, hreq⟩
    have hreq' : Saw may h1 k0 fun _ s => s.request? subj.tenantID id = some req :=
      hreq.mono fun _ _ hr => found_eq_ok.1 (transact_query_ok hr)
    refine along_bind (runs_requestIssuerID hk0 hreq') fun h2 n2 x _ _ hroute => ?_
    refine along_bind (runs_check _ _ _ _) fun h3 n3 _ hh3 _ hheld => ?_
    exact along_ite (fun _ => along_fail _) fun _ => along_pure ⟨x, hroute.later hh3, hheld⟩
  rintro h1 n1 _ - - ⟨x, hroute, hheld⟩
  refine runs_looks_bind looks_newID fun h2 n2 jobID hh2 _ _ => ?_
  refine runs_quiet_bind quiet_now fun h3 n3 now hh3 _ _ => ?_
  have hh := hh2.trans hh3
  refine along_bind (R := fun _ _ _ => True) ?_ fun _ _ _ _ _ _ => ?_
  · exact along_repo fun _ e s _ _ =>
      ⟨⟨effect_approve subj.tenantID id jobID _ _ _ ⟨rfl, rfl, rfl, rfl⟩ e s,
        transact_rel (.refl s)
          fun _ _ hm => (approveTx_ok subj.tenantID id jobID _ _ _ ⟨rfl, rfl, rfl, rfl⟩ hm).2,
        subj, reason, x, rfl, rfl, hroute.later hh, hheld.later hh⟩, fun _ _ => trivial⟩
  · refine runs_quiet_bind (quiet_emit _) fun _ _ _ _ _ _ => ?_
    exact runs_last (quiet_fetch (readOnly_getRequest _ _)) fun _ _ _ _ _ => trivial

/-! ## CAs -/

theorem mem_of_mem_push {h : Trail Ev} (hev : ¬ev.WritesIssuers) :
    ∀ x ∈ h ++ [(k, ev)], x ∈ h ∨ ¬x.2.WritesIssuers := by
  intro x hx
  rcases mem_append.1 hx with hx | hx
  · exact .inl hx
  · obtain rfl := mem_singleton.1 hx
    exact .inr hev

theorem runs_ensureCA (t : Id) (td : String) :
    Runs P may c (ensureCA P t td) (fun h' n' ca => (∃ k, n ≤ k ∧ k < n' ∧
      Ensured may h' k t td ca) ∧ ∀ x ∈ h', x ∈ h ∨ ¬x.2.WritesIssuers) h n := by
  refine along_ite (fun _ => along_fail _) fun _ => ?_
  refine along_bind (R := fun h' n' r => (∀ ca, r = .ok ca → ∃ k, n ≤ k ∧ k < n' ∧
    Ensured may h' k t td ca) ∧ ∀ x ∈ h', x ∈ h ∨ ¬x.2.WritesIssuers) ?_ ?_
  · intro m e s hm hmay
    refine ⟨?_, along_pure ⟨fun ca hca => ?_, ?_⟩⟩
    · show Does P may c h e s .read (transact _ e s).2
      rw [transact_readOnly (readOnly_caByState _ _ _)]
      exact does_looks h e s .read trivial
    · exact ⟨m, hm, Nat.lt_succ_self m, .inl ⟨.read, e, s, by simp, hmay, hca⟩⟩
    · exact mem_of_mem_push fun hw => hw
  rintro h1 n1 r hh1 hn1 ⟨hfound, hnew⟩
  split
  · next ca => exact along_pure ⟨hfound ca rfl, hnew⟩
  · refine along_repo fun m e s hm hmay => ⟨⟨effect_ensureCA P t td e s, rfl⟩, fun ca hca => ?_⟩
    refine ⟨⟨m, by omega, Nat.lt_succ_self m, .inr (by simp)⟩, fun x hx => ?_⟩
    have hev : ¬(Ev.ensureCA t td (.ok ca)).WritesIssuers := fun hw => hw
    rcases mem_of_mem_push hev x hx with hx | hx
    · exact hnew x hx
    · exact .inr hx
  · exact along_fail _

theorem runs_signLeaf (t : Id) (td spiffe : String) (pub : PublicKey) (ttl : Duration) :
    Runs P may (.signLeaf t td spiffe pub ttl) (signLeaf P t td spiffe pub ttl) (fun _ _ _ => True) h n := by
  refine along_ite (fun _ => along_fail _) fun _ => ?_
  split
  · exact along_fail _
  refine along_ite (fun _ => along_fail _) fun _ => ?_
  refine along_bind (runs_ensureCA _ _) ?_
  rintro h1 n1 ca hh1 hn1 ⟨⟨k1, hk1, hlt1, hsaw⟩, -⟩
  refine along_ofExcept_bind fun ⟨key, caCert⟩ hsigner => ?_
  refine runs_quiet_bind quiet_randomSerial fun h2 n2 serial hh2 hn2 _ => ?_
  split
  · exact along_fail _
  refine along_bind runs_now ?_
  rintro h3 n3 now hh3 hn3 ⟨k2, hk2, hlt2, hclock⟩
  refine along_bind (R := fun _ _ _ => True) ?_ fun _ _ _ _ _ _ => ?_
  · refine along_ask fun m e s _ _ => ⟨⟨rfl, ?_⟩, trivial⟩
    refine ⟨t, ca, key, k1, k2, by omega, .inr ⟨td, hsaw.later (hh2.trans hh3)⟩, hsigner,
      hclock, ?_⟩
    have hlasts : Lasts (.signLeaf t td spiffe pub ttl) t ttl :=
      lasts_of_some (fun _ _ h => by cases h) rfl
    exact hlasts.mono (le_of_eq (add_sub_cancel_left now ttl))
  · exact along_ofExcept_bind fun _ _ => along_pure trivial

/-! ## Issuer administration -/

theorem not_writes_of_looks {h h' : Trail Ev} (hh : ∀ x ∈ h, ¬x.2.WritesIssuers)
    (hnew : ∀ x ∈ h', x ∈ h ∨ x.2.Looks) : ∀ x ∈ h', ¬x.2.WritesIssuers := by
  intro x hx
  rcases hnew x hx with hx | hx
  · exact hh x hx
  · obtain ⟨k, ev⟩ := x
    cases ev <;> first | exact id | exact hx.elim

theorem runs_createIssuer (subj : Subjects) (input : IssuerInput) :
    Runs P may (.createIssuer subj input) (createIssuer P subj input) (fun _ _ _ => True) [] n := by
  refine along_ofExcept_bind fun type htype => ?_
  have hstart : ∀ x ∈ ([] : Trail Ev), ¬x.2.WritesIssuers := fun x hx => by cases hx
  refine runs_looks_bind (only_ite (looks_ensureACMEAccountKey P _) (only_pure _)) fun h1 n1 settings _ _ hnew1 => ?_
  have hh1 := not_writes_of_looks hstart hnew1
  refine runs_looks_bind looks_newID fun h2 n2 id _ _ hnew2 => ?_
  have hh2 := not_writes_of_looks hh1 hnew2
  refine runs_quiet_bind (quiet_sealSettings P _ _) fun h3 n3 ⟨blob, shown⟩ _ _ hnew3 => ?_
  have hh3 := not_writes_of_looks hh2 hnew3
  refine along_bind (R := fun h' _ caID => (type = .selfSigned → ∃ ca k, caID = some ca.id ∧
    Ensured may h' k subj.tenantID input.trustDomain ca) ∧
    ∀ x ∈ h', ¬x.2.WritesIssuers) ?_ ?_
  · unfold anchorCA
    split
    · refine along_bind (runs_ensureCA _ _) ?_
      rintro h4 n4 ca - - ⟨⟨k, -, -, hsaw⟩, hnew⟩
      refine along_pure ⟨fun _ => ⟨ca, k, rfl, hsaw⟩, fun x hx => ?_⟩
      rcases hnew x hx with hx | hx
      · exact hh3 x hx
      · exact hx
    · exact along_pure ⟨nofun, hh3⟩
  rintro h4 n4 caID - - ⟨hca, hh4⟩
  refine along_bind (R := fun _ _ _ => True) ?_ fun _ _ _ _ _ _ => ?_
  · refine along_repo fun m e s _ _ => ⟨⟨effect_createTx P subj _ e s, hh4, ?_⟩, fun _ _ => trivial⟩
    exact ⟨subj, input, id, type, caID, blob, shown, rfl, htype, rfl, hca, rfl⟩
  · refine runs_quiet_bind (quiet_emit _) fun _ _ _ _ _ _ => ?_
    exact runs_last (quiet_getIssuer P _ _) fun _ _ _ _ _ => trivial

theorem runs_updateIssuer (subj : Subjects) (id : Id) (input : IssuerInput) :
    Runs P may (.updateIssuer subj id input) (updateIssuer P subj id input)
      (fun _ _ _ => True) [] n := by
  have hstart : ∀ x ∈ ([] : Trail Ev), ¬x.2.WritesIssuers := fun x hx => by cases hx
  refine runs_quiet_bind (Authz.quiet_check _ _ _ _) fun h1 n1 _ _ _ hnew1 => ?_
  have hh1 := not_writes_of_looks hstart hnew1
  refine along_bind (R := fun h' _ old => (∃ k, Saw may h' k fun _ s =>
    s.issuerFor subj.tenantID (some id) "" = some old) ∧ ∀ x ∈ h', ¬x.2.WritesIssuers) ?_ ?_
  · refine along_repo fun m e s _ hmay => ⟨?_, fun old hold => ⟨?_, fun x hx => ?_⟩⟩
    · rw [transact_readOnly (readOnly_getIssuer _ _)]
      exact does_looks h1 e s .read trivial
    · exact ⟨m, .read, e, s, by simp, hmay, issuerFor_of_getIssuer hold⟩
    have hread : ¬Ev.read.WritesIssuers := fun hw => hw
    rcases mem_of_mem_push hread x hx with hx | hx
    · exact hh1 x hx
    · exact hx
  rintro h2 n2 old - - ⟨⟨k, hold⟩, hh2⟩
  refine along_ite (fun _ => along_fail _) fun _ => ?_
  refine along_ofExcept_bind fun _ _ => ?_
  refine runs_quiet_bind (quiet_sealSettings P _ _) fun h3 n3 ⟨blob, shown⟩ hpre3 _ hnew3 => ?_
  refine along_bind (R := fun _ _ _ => True) ?_ fun _ _ _ _ _ _ => ?_
  · refine along_repo fun m e s _ _ => ⟨⟨effect_updateTx P _ _ e s, ?_, ?_⟩, fun _ _ => trivial⟩
    · exact not_writes_of_looks hh2 hnew3
    · exact ⟨subj, id, input, old, blob, shown, k, rfl, hold.later hpre3, rfl, rfl⟩
  · refine runs_quiet_bind (quiet_emit _) fun _ _ _ _ _ _ => ?_
    exact runs_last (quiet_getIssuer P _ _) fun _ _ _ _ _ => trivial

theorem runs_deleteIssuer (subj : Subjects) (id : Id) :
    Runs P may (.deleteIssuer subj id) (deleteIssuer subj id) (fun _ _ _ => True) h n := by
  refine runs_quiet_bind (Authz.quiet_check _ _ _ _) fun _ _ _ _ _ _ => ?_
  refine runs_quiet_bind (quiet_fetch (readOnly_countedIssuer _ _)) fun _ _ _ _ _ _ => ?_
  refine along_ite (fun _ => along_fail _) fun _ => ?_
  refine along_bind (R := fun _ _ _ => True) ?_ fun _ _ _ _ _ _ => ?_
  · exact along_repo fun m e s _ _ =>
      ⟨⟨effect_deleteTx _ _ e s, ⟨subj, rfl⟩, rfl⟩, fun _ _ => trivial⟩
  · exact runs_last (quiet_emit _) fun _ _ _ _ _ => trivial

theorem runs_importBackup (subj : Subjects) (doc : Transfer.Document) (mode : String) :
    Runs P may (.importBackup subj doc mode) (Transfer.importBackup P subj doc mode)
      (fun _ _ _ => True) h n := by
  refine along_ite (fun _ => along_fail _) fun _ => along_ite (fun _ => along_fail _) fun _ => ?_
  refine along_bind (R := fun _ _ _ => True) ?_ fun _ _ _ _ _ _ => ?_
  · refine along_repo fun m e s _ _ => ⟨⟨(happens_importBackup P subj doc mode e s).effect, ?_⟩,
      fun _ _ => trivial⟩
    exact ⟨subj, rfl, rfl, rfl⟩
  · exact runs_quiet_bind (quiet_emit _) fun _ _ _ _ _ _ => along_pure trivial

/-! ## All the calls -/

theorem sound_of_runs {α : Type} {m : Svc α} {f : α → Value} (hf : ∀ a b, f a ≠ .bundle b)
    (hm : Runs P may c m (fun _ _ _ => True) h n) :
    (m >>= fun a => pure (f a)).run.Along may (fun h _ => Does P may c h)
      (fun h _ r => Outcome P may c h r) h n := by
  have hval : Runs P may c (m >>= fun a => pure (f a)) (fun _ _ v => ∀ b, v ≠ .bundle b) h n :=
    along_bind hm fun _ _ a _ _ _ => along_pure (hf a)
  refine Prog.Along.mono ?_ hval
  rintro h' n' r hr b rfl
  exact absurd rfl (hr _ rfl b)

theorem sound_of_bundle {m : Svc Bundle}
    (hm : Runs P may c m (fun h' _ b => Outcome P may c h' (.ok (.bundle b))) h n) :
    (m >>= fun b => pure (Value.bundle b)).run.Along may (fun h _ => Does P may c h)
      (fun h _ r => Outcome P may c h r) h n := by
  have hval : Runs P may c (m >>= fun b => pure (Value.bundle b))
      (fun h' _ v => Outcome P may c h' (.ok v)) h n :=
    along_bind hm fun _ _ b _ _ hb => along_pure hb
  refine Prog.Along.mono ?_ hval
  rintro h' n' r hr b rfl
  exact hr _ rfl b rfl

theorem outcome_of_renewed {b : Bundle} (hc : c.Renews) (hb : Renewed P may c h b) :
    Outcome P may c h (.ok (.bundle b)) := by
  rintro _ ⟨⟩
  rcases hb with hchain | hgeneric
  · exact .inl hchain
  · exact .inr (.inr ⟨hc, hgeneric⟩)

theorem sound_issuance {ops : Call → Prop} (hops : ∀ c, ops c → c.OnIssuance) :
    (conduct P may ops).Sound fun c => (body P c).run := by
  intro c hc n
  cases c with
  | issue subj input =>
    refine sound_of_bundle (Along.mono ?_ (runs_issue ?_ fun h' k sid _ _ _ =>
      asked_of_ne (fun _ h => by cases h) h' k _ _ sid))
    · rintro h' n' b hb _ ⟨⟩
      exact .inl hb
    · exact lasts_of_some (fun _ _ h => by cases h) rfl
  | obtainACMEFor subj rid iid ds csr d a =>
    refine sound_of_bundle (Along.mono ?_
      (runs_obtainACMEFor (fun _ h => by cases h) subj rid iid ds csr d a))
    rintro h' n' b - _ ⟨⟩
    exact .inr (.inl ⟨subj, rid, iid, ds, csr, d, a, rfl⟩)
  | renew subj id =>
    refine sound_of_bundle (Along.mono ?_ (runs_renew subj id))
    exact fun h' n' b hb => outcome_of_renewed trivial hb
  | renewSystem t id =>
    refine sound_of_bundle (Along.mono ?_ (runs_renewSystem t id))
    exact fun h' n' b hb => outcome_of_renewed trivial hb
  | approveRequest subj id reason =>
    exact sound_of_runs (fun _ _ => nofun) (runs_approveRequest subj id reason)
  | processJob job => exact sound_of_runs (fun _ _ => nofun) (runs_processJob job)
  | enroll auto verdict subj input =>
    exact sound_of_runs (fun _ _ => nofun)
      (runs_enroll _ auto verdict subj input)
  | createIssuer subj input => exact sound_of_runs (fun _ _ => nofun) (runs_createIssuer subj input)
  | updateIssuer subj id input =>
    exact sound_of_runs (fun _ _ => nofun) (runs_updateIssuer subj id input)
  | deleteIssuer subj id => exact sound_of_runs (fun _ _ => nofun) (runs_deleteIssuer subj id)
  | importBackup subj doc mode =>
    exact sound_of_runs (fun _ _ => nofun) (runs_importBackup subj doc mode)
  | ensureCA t td =>
    refine sound_of_runs (fun _ _ => nofun) (Along.mono ?_ (runs_ensureCA t td))
    exact fun _ _ _ _ => trivial
  | signLeaf t td spiffe pub ttl =>
    exact sound_of_runs (fun _ _ => nofun) (runs_signLeaf t td spiffe pub ttl)
  | _ => exact (hops _ hc).elim

/-! ## What a step leaves alone -/

/-- What a step may have written. -/
inductive Footprint (ev : Ev) (s s' : Database) : Prop where
  | nothing (h : s' = s)
  | stored (hev : ev.WritesCertificates) (h : Stored s s')
  | worked (hev : ev.WritesRequests) (h : Worked s s')
  | ensured (t : Id) (td : String) (r : Except Err CA) (hev : ev = .ensureCA t td r)
      (h : ∃ cas, s' = { s with cas })
  | issuers (hev : ev.WritesIssuers)

theorem stored_of_onOk {α : Type} {r : Except Err α} {p : Prop}
    {f : IssuedCertificate → IssuedCertificate} {hf : ∀ c, (f c).id = c.id}
    (h : OnOk r s s' (p ∧ s' = s.mapCertificate id f hf)) : Stored s s' := by
  cases r with
  | error e => exact ⟨s.certificates, s.certLog, s.grants, h⟩
  | ok a => exact ⟨_, s.certLog, s.grants, h.2⟩

theorem Does.footprint (hd : Does P may c h e s ev s') : Footprint ev s s' := by
  obtain ⟨heff, hbec⟩ := hd
  cases ev with
  | insertCertificate row r => exact .stored trivial hbec.1
  | markKeyDelivered t id r | setCertificateStatus t id st sup r =>
    exact .stored trivial (stored_of_onOk heff)
  | getCertificate t id r | readBack t id r => exact .nothing heff.1
  | recordResult job rid cid r => exact .worked trivial hbec
  | approve t id jobID r => exact .worked trivial hbec.1
  | insertRequest row r =>
    cases r with
    | error err => exact .nothing heff
    | ok u =>
      obtain ⟨now, -, hs⟩ := heff
      exact .worked trivial ⟨_, s.jobs, s.grants, hs⟩
  | updateJob job r =>
    cases r with
    | error err => exact .nothing heff
    | ok u => exact .worked trivial ⟨s.requests, _, s.grants, heff.2⟩
  | ensureCA t td r => exact .ensured t td r rfl heff
  | insertIssuer row r | updateIssuer row r | deleteIssuer t id r | importBackup t doc mode r =>
    exact .issuers trivial
  | look | newID id | genKey k | order c d a | audit a | read | readIssuer r | sign l q | processJob j =>
    exact .nothing heff
  | updateCertificate row r | revoke t id r | deleteCertificate t id r
  | completeRequest t id st r | setRequestStatus t id st r | claimDueJobs r | dueForRenewal r
  | writeGrants | writeCredentials => exact hbec.elim

theorem Does.issuers_eq (hd : Does P may c h e s ev s') (hev : ¬ev.WritesIssuers) :
    s'.issuers = s.issuers := by
  cases hd.footprint with
  | nothing h => rw [h]
  | stored _ h | worked _ h =>
    obtain ⟨_, _, _, rfl⟩ := h
    rfl
  | ensured t td r _ h =>
    obtain ⟨_, rfl⟩ := h
    rfl
  | issuers h => exact absurd h hev

theorem Does.cas_cases (hd : Does P may c h e s ev s') :
    s'.cas = s.cas ∨ ∃ t td ca, ev = .ensureCA t td (.ok ca) ∧ Generated P t td e.clock ca ∧
      s.cas.insert? { ca with createdAt := e.dbNow } = some s'.cas := by
  cases hd.footprint with
  | nothing h => exact .inl (by rw [h])
  | stored _ h | worked _ h =>
    obtain ⟨_, _, _, rfl⟩ := h
    exact .inl rfl
  | ensured t td r hev _ =>
    subst hev
    have htx : transact (ensureTx P t td) e s = (r, s') := hd.because
    cases r with
    | error err => exact .inl (by rw [eq_of_transact_error htx])
    | ok ca =>
      obtain ⟨ss, hm, hdb⟩ := ok_of_transact htx
      rcases ensureTx_ok hm with ⟨-, hsame⟩ | ⟨hgen, table, hins, hnew⟩
      · exact .inl (by rw [hdb, hsame])
      · exact .inr ⟨t, td, ca, rfl, hgen, by rw [hins, hdb, hnew]⟩
  | issuers hev =>
    left
    have hbec := hd.because
    have heff := hd.effect
    cases ev with
    | insertIssuer row r | updateIssuer row r | deleteIssuer t id r =>
      obtain ⟨_, _, _, rfl⟩ := heff
      rfl
    | importBackup t doc mode r =>
      obtain ⟨subj, -, -, htx⟩ := hbec
      exact inv_of_transact (I := fun x => x.cas = s.cas) Transfer.holds_importTx_cas htx rfl
    | _ => exact hev.elim

theorem Does.keeps (hframe : ∀ s s' : Database, s'.issuers = s.issuers → I s → I s')
    (hclear : ∀ t td id, Tx.Holds I (fun _ => True) (clearDefaultIssuer t td id))
    (hinsert : ∀ subj input id type caID blob shown, c = .createIssuer subj input → Tx.Holds I (fun _ => True) (insertIssuer P (newIssuer subj input id type caID blob shown)))
    (hupdate : ∀ subj input old blob shown, c = .updateIssuer subj old.id input → Tx.Holds I (fun _ => True) (updateIssuer P (IssuerInput.apply input subj old blob shown)))
    (hdelete : ∀ t id, Tx.Holds I (fun _ => True) (deleteIssuer t id))
    (himport : ∀ subj doc mode, c = .importBackup subj doc mode → Tx.Holds I (fun _ => True) (Transfer.importTx P subj doc mode))
    (hd : Does P may c h e s ev s') (hI : I s) : I s' := by
  by_cases hev : ev.WritesIssuers
  · have hbec := hd.because
    cases ev with
    | insertIssuer row r =>
      obtain ⟨-, subj, input, id, type, caID, blob, shown, hc, -, rfl, -, htx⟩ := hbec
      exact inv_of_transact (holds_createTx (fun _ => hclear _ _ _)
        (hinsert subj input id type caID blob shown hc) fun s _ => hframe s _ rfl) htx hI
    | updateIssuer row r =>
      obtain ⟨-, subj, id, input, old, blob, shown, k, hc, hold, rfl, htx⟩ := hbec
      -- the row that is written is the one of the issuer the call is about
      obtain ⟨-, -, s0, -, -, hfor⟩ := hold
      obtain rfl : old.id = id := Table.get?_key (Option.filter_eq_some_iff.1 hfor).1
      exact inv_of_transact (holds_updateTx (fun _ => hclear _ _ _)
        (hupdate subj input old blob shown hc)) htx hI
    | deleteIssuer t id r =>
      exact inv_of_transact (holds_deleteTx (hdelete t id) fun s _ => hframe s _ rfl) hbec.2 hI
    | importBackup t doc mode r =>
      obtain ⟨subj, hc, -, htx⟩ := hbec
      exact inv_of_transact (himport subj doc mode hc) htx hI
    | _ => exact hev.elim
  · exact hframe s s' (hd.issuers_eq hev) hI

theorem Does.first (hd : Does P may c h e s ev s') (hev : ev.WritesIssuers)
    (hc : (∃ subj input, c = .createIssuer subj input) ∨ ∃ subj id input, c = .updateIssuer subj id input)
    : ∀ x ∈ h, ¬x.2.WritesIssuers := by
  have hbec := hd.because
  cases ev with
  | insertIssuer row r | updateIssuer row r => exact hbec.1
  | deleteIssuer t id r =>
    obtain ⟨⟨subj, rfl⟩, -⟩ := hbec
    rcases hc with ⟨_, _, hc⟩ | ⟨_, _, _, hc⟩ <;> cases hc
  | importBackup t doc mode r =>
    obtain ⟨subj, rfl, -⟩ := hbec
    rcases hc with ⟨_, _, hc⟩ | ⟨_, _, _, hc⟩ <;> cases hc
  | _ => exact hev.elim

/-! ## Runs -/

section Runs

variable (P : Platform) (db : Database) (as : List SysAct)

/-- The database at a place of the run. -/
def storeAt (n : Nat) : Database := (runFrom P db (as.take n)).store

/-- What a step at place `k` of the run meets. -/
def At (k : Nat) (e : Env) (s : Database) : Prop :=
  (∃ j, as[k]? = some (.run j e)) ∧ s = storeAt P db as k

/-- The trail of a thread of the run. -/
abbrev TrailOf (ops : Call → Prop) (n j : Nat) (c : Call) (h : Trail Ev) : Prop :=
  (conduct P (At P db as) ops).Trailed (fun c => (body P c).run) (init db) as n j c h

/-- Thread `j`, which runs the call `c` and has left the trail `h`, makes a step at place `m`. -/
structure StepAt (ops : Call → Prop) (m j : Nat) (c : Call) (h : Trail Ev) (e : Env) (ev : Ev) :
    Prop where
  act : as[m]? = some (.run j e)
  thread : ∃ t, (runFrom P db (as.take m)).threads[j]? = some t ∧ t.call = c
  emits : (runFrom P db (as.take m)).emits j e = some ev
  trail : TrailOf P db as ops m j c h
  does : Does P (At P db as) c h e (storeAt P db as m) ev (storeAt P db as (m + 1))

variable {P db as} {ops : Call → Prop} {j : Nat}

theorem storeAt_length : storeAt P db as as.length = (runFrom P db as).store := by
  simp [storeAt]

theorem Saw.at (hs : Saw (At P db as) h k φ) :
    ∃ i e, as[k]? = some (.run i e) ∧ φ e (storeAt P db as k) := by
  obtain ⟨ev, e, s, -, ⟨⟨i, hi⟩, rfl⟩, hφ⟩ := hs
  exact ⟨i, e, hi, hφ⟩

theorem Saw.before (hs : Saw (At P db as) h k φ) (hT : TrailOf P db as ops n j c h) :
    k < n := by
  obtain ⟨ev, e, s, hmem, -⟩ := hs
  exact hT.early _ hmem

theorem stepAt_of_eq (hT : TrailOf P db as ops n j c h) {h1 h2 : Trail Ev}
    (heq : h = h1 ++ (m, ev) :: h2) : ∃ e, StepAt P db as ops m j c h1 e ev := by
  obtain ⟨-, e, ha, hcall, hem, hdoes⟩ := hT.steps h1 m ev h2 heq
  exact ⟨e, ha, hcall, hem, hT.before heq, hdoes⟩

theorem stepAt_of_mem (hT : TrailOf P db as ops n j c h) (hev : (m, ev) ∈ h) :
    ∃ h1 e, h1 <+: h ∧ StepAt P db as ops m j c h1 e ev := by
  obtain ⟨h1, h2, rfl⟩ := append_of_mem hev
  obtain ⟨e, hat⟩ := stepAt_of_eq hT rfl
  exact ⟨h1, e, prefix_append _ _, hat⟩

theorem Saw.step (hs : Saw (At P db as) h k φ) (hT : TrailOf P db as ops n j c h) :
    ∃ h1 e ev, StepAt P db as ops k j c h1 e ev ∧ φ e (storeAt P db as k) := by
  obtain ⟨ev, e, s, hmem, ⟨⟨i, hi⟩, rfl⟩, hφ⟩ := hs
  obtain ⟨h1, e', -, hat⟩ := stepAt_of_mem hT hmem
  have hact := hat.act
  rw [hi] at hact
  cases hact
  exact ⟨h1, e, ev, hat, hφ⟩

theorem StepAt.meets {cond : SysConfig → SysAct → Prop}
    (hat : StepAt P db as ops m j c h e ev) (hcond : AllMeet P cond db as) :
    cond (runFrom P db (as.take m)) (.run j e) :=
  Meets.place _ hcond hat.act

theorem StepAt.mem_events (hat : StepAt P db as ops k j c h e ev) (hkn : k < n) :
    ev ∈ (runFrom P db (as.take n)).events := by
  refine mem_events_place _ (Nat.succ_le_of_lt hkn) ?_
  rw [place_succ _ _ hat.act]
  exact mem_events_of_emits _ hat.emits

theorem StepAt.lt (hat : StepAt P db as ops m j c h e ev) : m < as.length :=
  (List.getElem?_eq_some_iff.1 hat.act).1

section Calls

variable (hops : ∀ c, ops c → c.OnIssuance) (hcalls : ∀ a ∈ as, a.Calls ops)

include hops hcalls

/-- An act of the run does nothing to the database, or it is a step of a call that does what the
calls do. -/
theorem moved (P : Platform) (db : Database) (hn : n < as.length) :
    storeAt P db as (n + 1) = storeAt P db as n ∨
      ∃ j c h e ev, ops c ∧ StepAt P db as ops n j c h e ev := by
  rcases Conduct.moved_place (C := conduct P (At P db as) ops) (sound_issuance hops)
    (fun _ j _ ha => ⟨⟨j, ha⟩, rfl⟩) rfl hcalls hn with hsame | hstep
  · exact .inl hsame
  · obtain ⟨j, e, t, ev, h, ha, ht, hop, hem, hT, hdoes⟩ := hstep
    exact .inr ⟨j, t.call, h, e, ev, hop, ha, ⟨t, ht, rfl⟩, hem, hT, hdoes⟩

theorem storeAt_inv
    (hstep : ∀ c h e s ev s', ops c → Does P (At P db as) c h e s ev s' → I s → I s') (hdb : I db)
    (hn : n ≤ as.length) : I (storeAt P db as n) := by
  induction n with
  | zero => exact hdb
  | succ n ih =>
    have hI := ih (Nat.le_of_succ_le hn)
    rcases moved hops hcalls P db hn with hsame | ⟨j, c, h, e, ev, hop, hat⟩
    · rw [hsame]
      exact hI
    · exact hstep c h e _ ev _ hop hat.does hI

theorem trailed {t : SysThread} (ht : (runFrom P db as).threads[j]? = some t) :
    ops t.call ∧ ∃ h, h.map Prod.snd = t.hist ∧ TrailOf P db as ops as.length j t.call h ∧
      ∀ r, t.prog.result? = some r → Outcome P (At P db as) t.call h r := by
  have hplace : ((init db).place (fun c => (body P c).run) as as.length).threads[j]?
      = some t := by
    rw [place, take_length]
    exact ht
  obtain ⟨hop, h, hmap, hT, hA⟩ := Conduct.follows_place (C := conduct P (At P db as) ops)
    (sound_issuance hops) (fun _ j _ ha => ⟨⟨j, ha⟩, rfl⟩) rfl hcalls (Nat.le_refl _) hplace
  refine ⟨hop, h, hmap, hT, fun r hr => ?_⟩
  rw [Prog.eq_ret_of_result? hr] at hA
  exact hA

theorem stepAt_of_hist {t : SysThread} (ht : (runFrom P db as).threads[j]? = some t) (hev : ev ∈ t.hist) :
    ops t.call ∧ ∃ m h e, StepAt P db as ops m j t.call h e ev := by
  obtain ⟨hop, h, hmap, hT, -⟩ := trailed hops hcalls ht
  rw [← hmap] at hev
  obtain ⟨⟨m, ev⟩, hin, rfl⟩ := mem_map.1 hev
  obtain ⟨h1, e, -, hat⟩ := stepAt_of_mem hT hin
  exact ⟨hop, m, h1, e, hat⟩

/-! ### CAs -/

theorem cas_mono {n : Nat} (hmn : m ≤ n) (hn : n ≤ as.length) (hca : ca ∈ (storeAt P db as m).cas.rows) :
    ca ∈ (storeAt P db as n).cas.rows := by
  induction hmn with
  | refl => exact hca
  | @step n _ ih =>
    have hold := ih (Nat.le_of_succ_le hn)
    rcases moved hops hcalls P db hn with hsame | ⟨j, c, h, e, ev, -, hat⟩
    · rwa [hsame]
    rcases hat.does.cas_cases with hsame | ⟨_, _, _, _, _, hins⟩
    · rwa [hsame]
    · rw [(Table.insert?_eq_some hins).2]
      exact mem_append_left _ hold

/-- A CA that a call has ensured is one of the trust domain, and stored from then on, but for the
time of its row. -/
theorem stored_of_ensured (hT : TrailOf P db as ops n j c h)
    (hens : Ensured (At P db as) h k t td ca) :
    ca.tenantID = t ∧ ca.trustDomain = td ∧
      ∃ createdAt, { ca with createdAt } ∈ (storeAt P db as (k + 1)).cas.rows := by
  have hstay : ca ∈ (storeAt P db as k).cas.rows → k < as.length →
      ∃ createdAt, { ca with createdAt } ∈ (storeAt P db as (k + 1)).cas.rows := fun hca hk =>
    ⟨ca.createdAt, cas_mono hops hcalls (Nat.le_succ k) hk hca⟩
  rcases hens with hsaw | hmem
  · obtain ⟨_, e, _, hat, hget⟩ := Saw.step hsaw hT
    obtain ⟨ss, hm, -⟩ := transact_ok hget
    obtain ⟨hca, ht, htd, -⟩ := mem_of_caByState hm
    exact ⟨ht, htd, hstay hca hat.lt⟩
  · -- the transaction of `EnsureCA` has found it, or stored it
    obtain ⟨_, e, -, hat⟩ := stepAt_of_mem hT hmem
    obtain ⟨ss, hm, hdb⟩ := ok_of_transact hat.does.because
    rcases ensureTx_ok hm with ⟨hlook, -⟩ | ⟨hgen, table, hins, hnew⟩
    · obtain ⟨hca, ht, htd, -⟩ := mem_of_caByState hlook
      exact ⟨ht, htd, hstay hca hat.lt⟩
    refine ⟨hgen.tenantID, hgen.trustDomain, e.dbNow, ?_⟩
    rw [hdb, hnew, (Table.insert?_eq_some hins).2]
    exact mem_append_right _ (mem_singleton_self _)

theorem stored_of_found (hT : TrailOf P db as ops n j c h) (hfound : Found (At P db as) h k t ca) :
    ca.tenantID = t ∧ ∃ createdAt,
      { ca with createdAt } ∈ (storeAt P db as (k + 1)).cas.rows := by
  rcases hfound with ⟨id, hsaw⟩ | ⟨td, hens⟩
  · obtain ⟨_, e, _, hat, hget⟩ := Saw.step hsaw hT
    obtain ⟨hca, ht, -⟩ := mem_of_getCA hget
    exact ⟨ht, ca.createdAt, cas_mono hops hcalls (Nat.le_succ k) hat.lt hca⟩
  · obtain ⟨ht, -, hstored⟩ := stored_of_ensured hops hcalls hT hens
    exact ⟨ht, hstored⟩

end Calls

end Runs

end Issuance

end Lcm
