import Lcm.Safety.Defaults

/-!
# Approval authority

Who approves a request must be able to write to the issuer it is issued from: the one the request
names, or the default of its trust domain. That issuer is looked up when the request is approved
and once more when its job is processed, and issuers are administered in between.

* `approver_holds_issuer` — the certificate comes from an issuer the approver could write to, if
  nobody moves a default of the tenant or deletes the issuer the request names;
* `default_moved_after_approval` — the run that shows that a new default is enough to break it.
-/

namespace Lcm

open Conc Db Svc Ca Issue Issuance List Database Sql

/-- The calls of issuance and of issuer administration, imports apart. -/
def Call.OnApproval (c : Call) : Prop :=
  c.OnIssuance ∧ ∀ subj doc mode, c ≠ .importBackup subj doc mode

/-- The step leaves alone what the request of the tenant is issued from: the tenant's defaults stay
the defaults of their trust domains, and the issuer the request names is not deleted. -/
def Ev.Spares (t id : Id) (s : Database) : Ev → Prop
  | insertIssuer row _ => row.tenantID = t → row.isDefault = true →
      ∀ i ∈ s.issuers.rows, i.tenantID = t → i.isDefault = true → i.trustDomain ≠ row.trustDomain
  | updateIssuer row _ => row.tenantID = t →
      ∀ i ∈ s.issuers.rows, i.tenantID = t → i.isDefault = true →
        (i.id = row.id → row.isDefault = true ∧ row.trustDomain = i.trustDomain) ∧
          (i.id ≠ row.id → row.isDefault = true → row.trustDomain ≠ i.trustDomain)
  | deleteIssuer _ x _ => (∀ i ∈ s.issuers.rows, i.tenantID = t → i.isDefault = true → i.id ≠ x) ∧
      ∀ r ∈ s.request? t id, r.issuerID ≠ some x
  | _ => True

instance (t id : Id) (s : Database) : (ev : Ev) → Decidable (ev.Spares t id s)
  | .insertIssuer row _ => instDecidableForall (p := row.tenantID = t)
  | .updateIssuer row _ => instDecidableForall (p := row.tenantID = t)
  | .deleteIssuer _ x _ => instDecidableAnd
      (p := ∀ i ∈ s.issuers.rows, i.tenantID = t → i.isDefault = true → i.id ≠ x)
      (q := ∀ r ∈ s.request? t id, r.issuerID ≠ some x)
  | .look | .newID .. | .genKey .. | .order .. | .audit .. | .read | .getCertificate .. | .insertCertificate ..
  | .updateCertificate .. | .setCertificateStatus .. | .markKeyDelivered .. | .revoke ..
  | .deleteCertificate .. | .readBack .. | .insertRequest .. | .completeRequest .. | .approve ..
  | .setRequestStatus .. | .updateJob .. | .claimDueJobs .. | .processJob .. | .recordResult ..
  | .dueForRenewal .. | .importBackup .. | .writeGrants | .writeCredentials | .readIssuer ..
  | .sign .. | .ensureCA .. => .isTrue trivial

/-- The act leaves alone what the request of the tenant is issued from. -/
def Undisturbed (t id : Id) (cfg : SysConfig) : SysAct → Prop
  | .spawn _ => True
  | .run j e => ∀ ev ∈ cfg.emits j e, ev.Spares t id cfg.store

instance (t id : Id) (cfg : SysConfig) : (a : SysAct) → Decidable (Undisturbed t id cfg a)
  | .spawn _ => .isTrue trivial
  | .run _ _ => inferInstanceAs (Decidable (∀ _ ∈ _, _))

/-- Thread `i` has seen the subject hold write permission on the issuer. -/
def HeldWrite (P : Platform) (db : Database) (as : List SysAct) (i : Nat) (subj : Subjects)
    (issuerID : Id) : Prop :=
  ∃ k k' e e', k < k' ∧ as[k]? = some (.run i e) ∧ as[k']? = some (.run i e') ∧
    (subj.isAdmin = true ∨
      Authz.Granted (storeAt P db as k) subj .issuer issuerID .write e'.clock)

/-- Every certificate that a job of the request has stored comes from an issuer that everyone who
has approved the request held write permission on while approving. -/
def ApproversHold (P : Platform) (db : Database) (as : List SysAct) (t id : Id) : Prop :=
  ∀ (i j : Nat) (u v : SysThread) (subj : Subjects) (reason : String) (jobID : Id)
    (job : CertificateJob) (row : IssuedCertificate),
    (runFrom P db as).threads[i]? = some u → u.call = .approveRequest subj id reason →
    .approve t id jobID (.ok ()) ∈ u.hist →
    (runFrom P db as).threads[j]? = some v → v.call = .processJob job →
    job.tenantID = t → job.requestID = id → .insertCertificate row (.ok ()) ∈ v.hist →
    HeldWrite P db as i subj row.issuerID

variable {r : CertificateRequest} {x : Id} {td : String} {m n : Nat}

namespace Approval

/-- The defaults of the tenant are the defaults of their trust domains still, and the request asks
for what it asked for. -/
structure Steady (t id : Id) (s s' : Database) : Prop where
  defaults : ∀ i ∈ s.issuers.rows, i.tenantID = t → i.isDefault = true →
    ∃ i' ∈ s'.issuers.rows, i'.id = i.id ∧ i'.tenantID = t ∧ i'.trustDomain = i.trustDomain ∧
      i'.isDefault = true
  request : ∀ r, s.request? t id = some r → ∃ r', s'.request? t id = some r' ∧
    r'.issuerID = r.issuerID ∧ r'.spiffeID = r.spiffeID

variable {t id : Id} {s s' s'' : Database}

namespace Steady

theorem refl (s : Database) : Steady t id s s :=
  ⟨fun i hi ht hd => ⟨i, hi, rfl, ht, rfl, hd⟩, fun r hr => ⟨r, hr, rfl, rfl⟩⟩

theorem trans (h : Steady t id s s') (h' : Steady t id s' s'') : Steady t id s s'' := by
  constructor
  · intro i hi ht hd
    obtain ⟨i', hi', hid, ht', htd, hd'⟩ := h.defaults i hi ht hd
    obtain ⟨i'', hi'', hid', ht'', htd', hd''⟩ := h'.defaults i' hi' ht' hd'
    exact ⟨i'', hi'', hid'.trans hid, ht'', htd'.trans htd, hd''⟩
  intro r hr
  obtain ⟨r', hr', hissuer, hspiffe⟩ := h.request r hr
  obtain ⟨r'', hr'', hissuer', hspiffe'⟩ := h'.request r' hr'
  exact ⟨r'', hr'', hissuer'.trans hissuer, hspiffe'.trans hspiffe⟩

theorem congr (h : Steady t id s s') (hissuers : s''.issuers = s'.issuers)
    (hrequests : s''.requests = s'.requests) : Steady t id s s'' := by
  obtain ⟨hdef, hreq⟩ := h
  unfold request? at hreq
  rw [← hissuers] at hdef
  rw [← hrequests] at hreq
  exact ⟨hdef, hreq⟩

end Steady

/-! ## Requests -/

theorem request_update {f : CertificateRequest → CertificateRequest} {hf : ∀ r, (f r).id = r.id}
    (h : s'.requests = s.requests.update x f hf)
    (hkeep : ∀ r, (f r).tenantID = r.tenantID ∧ (f r).issuerID = r.issuerID ∧ (f r).spiffeID = r.spiffeID)
    (hr : s.request? t id = some r) :
    ∃ r', s'.request? t id = some r' ∧ r'.issuerID = r.issuerID ∧ r'.spiffeID = r.spiffeID := by
  obtain ⟨hget, ht⟩ := Option.filter_eq_some_iff.1 hr
  unfold request?
  rw [h, Table.get?_update, hget]
  obtain ⟨hten, hissuer, hspiffe⟩ := hkeep r
  split
  · refine ⟨f r, ?_, hissuer, hspiffe⟩
    simpa [Option.filter_eq_some_iff, hten] using ht
  · exact ⟨r, by simpa [Option.filter_eq_some_iff] using ht, rfl, rfl⟩

theorem request_insert {row : CertificateRequest} (h : s.requests.insert? row = some s'.requests)
    (hr : s.request? t id = some r) : s'.request? t id = some r := by
  obtain ⟨hmem, hid, ht⟩ := request?_eq_some.1 hr
  refine request?_eq_some.2 ⟨?_, hid, ht⟩
  rw [(Table.insert?_eq_some h).2]
  exact mem_append_left _ hmem

variable {P : Platform} {may : Nat → Env → Database → Prop} {c : Call} {h : Trail Ev} {e : Env}
  {ev : Ev}

theorem request_step (hd : Does P may c h e s ev s') (hev : ¬ev.WritesIssuers)
    (hr : s.request? t id = some r) : ∃ r', s'.request? t id = some r' ∧
      r'.issuerID = r.issuerID ∧ r'.spiffeID = r.spiffeID := by
  have hsame : s'.requests = s.requests → ∃ r', s'.request? t id = some r' ∧
      r'.issuerID = r.issuerID ∧ r'.spiffeID = r.spiffeID := by
    intro heq
    unfold request? at hr ⊢
    rw [heq]
    exact ⟨r, hr, rfl, rfl⟩
  cases hd.footprint with
  | nothing h => exact hsame (by rw [h])
  | stored _ h =>
    obtain ⟨_, _, _, rfl⟩ := h
    exact hsame rfl
  | ensured _ _ _ _ h =>
    obtain ⟨_, rfl⟩ := h
    exact hsame rfl
  | issuers h => exact absurd h hev
  | worked hw _ =>
    have heff := hd.effect
    cases ev with
    | insertRequest row r' =>
      cases r' with
      | error err => exact hsame (by rw [show s' = s from heff])
      | ok _ =>
        obtain ⟨now, hins, -⟩ := heff
        exact ⟨r, request_insert hins hr, rfl, rfl⟩
    | approve t id jobID r' =>
      cases r' with
      | error err => exact hsame (by rw [show s' = s from heff])
      | ok _ =>
        obtain ⟨approver, reason, hupd⟩ := heff.requests
        exact request_update hupd (fun _ => ⟨rfl, rfl, rfl⟩) hr
    | updateJob job r' =>
      cases r' with
      | error err => exact hsame (by rw [show s' = s from heff])
      | ok _ => exact hsame (by rw [heff.2])
    | recordResult job rid cid r' =>
      cases r' with
      | error err => exact hsame (by rw [show s' = s from heff])
      | ok _ =>
        obtain ⟨approver, reason, hupd⟩ := heff.requests
        exact request_update hupd (fun _ => ⟨rfl, rfl, rfl⟩) hr
    | _ => exact hw.elim

/-! ## Issuer administration -/

section Holds

variable {s₀ : Database}

theorem steady_grants (s : Database) (table : Table Grant.id) (h : Steady t id s₀ s) :
    Steady t id s₀ { s with grants := table } := h.congr rfl rfl

/-- The default flag is taken from another tenant's issuers, or from no default that was there. -/
theorem holds_clear {t' : Id}
    (hspares : t' = t → ∀ i ∈ s₀.issuers.rows, i.tenantID = t → i.isDefault = true → i.id ≠ x → i.trustDomain ≠ td)
    : Tx.Holds (Steady t id s₀) (fun _ => True) (clearDefaultIssuer t' td x) := by
  refine holds_clearDefaultIssuer fun s hs => ⟨?_, hs.request⟩
  intro i hi ht hd
  obtain ⟨i', hi', hid, ht', htd, hd'⟩ := hs.defaults i hi ht hd
  refine ⟨_, mem_map_of_mem hi', ?_⟩
  unfold undefault
  split
  · next hclear =>
    simp only [Bool.and_eq_true, beq_iff_eq, bne_iff_ne] at hclear
    obtain ⟨⟨⟨hten, hdom⟩, -⟩, hne⟩ := hclear
    refine absurd (htd.symm.trans hdom) ?_
    exact hspares (hten.symm.trans ht') i hi ht hd (hid ▸ hne)
  · exact ⟨hid, ht', htd, hd'⟩

theorem holds_insert (row : Issuer) :
    Tx.Holds (Steady t id s₀) (fun _ => True) (insertIssuer P row) := by
  refine holds_insertIssuer fun s table hs _ _ htable => ⟨⟨?_, hs.request⟩, trivial⟩
  intro i hi ht hd
  obtain ⟨i', hi', hrest⟩ := hs.defaults i hi ht hd
  refine ⟨i', ?_, hrest⟩
  rw [(Table.insert?_eq_some htable).2]
  exact mem_append_left _ hi'

theorem holds_update {row : Issuer}
    (hspares : row.tenantID = t → ∀ i ∈ s₀.issuers.rows, i.tenantID = t → i.isDefault = true →
      i.id = row.id → row.isDefault = true ∧ row.trustDomain = i.trustDomain) :
    Tx.Holds (Steady t id s₀) (fun _ => True) (updateIssuer P row) := by
  refine holds_updateIssuer fun s old hs hget htenant _ _ => ⟨?_, hs.request⟩
  intro i hi ht hd
  obtain ⟨i', hi', hid, ht', htd, hd'⟩ := hs.defaults i hi ht hd
  refine ⟨_, mem_map_of_mem hi', ?_⟩
  split
  · next hkey =>
    -- the default itself is written
    obtain rfl : i' = old := Table.eq_of_key_eq hi' (Table.get?_mem hget)
      (hkey.trans (Table.get?_key hget).symm)
    obtain ⟨hstays, hdom⟩ :=
      hspares (htenant.symm.trans ht') i hi ht hd (hid.symm.trans hkey)
    exact ⟨hid, ht', hdom, hstays⟩
  · exact ⟨hid, ht', htd, hd'⟩

theorem holds_delete {t' : Id}
    (hdefault : ∀ i ∈ s₀.issuers.rows, i.tenantID = t → i.isDefault = true → i.id ≠ x)
    (hpinned : ∀ r ∈ s₀.request? t id, r.issuerID ≠ some x) :
    Tx.Holds (Steady t id s₀) (fun _ => True) (deleteIssuer t' x) := by
  refine holds_deleteIssuer fun s hs _ => ⟨?_, ?_⟩
  · intro i hi ht hd
    obtain ⟨i', hi', hid, hrest⟩ := hs.defaults i hi ht hd
    refine ⟨i', mem_filter.2 ⟨hi', ?_⟩, hid, hrest⟩
    simpa [hid] using hdefault i hi ht hd
  intro r hr
  obtain ⟨r', hr', hissuer, hspiffe⟩ := hs.request r hr
  refine ⟨r', ?_, hissuer, hspiffe⟩
  have hkept : unpin x r' = r' := by
    unfold unpin
    rw [if_neg]
    rw [hissuer]
    exact hpinned r hr
  obtain ⟨hmem, hid, ht⟩ := request?_eq_some.1 hr'
  refine request?_eq_some.2 ⟨?_, hid, ht⟩
  exact hkept ▸ mem_map_of_mem hmem

end Holds

theorem steady_step (hd : Does P may c h e s ev s')
    (hc : ∀ subj doc mode, c ≠ .importBackup subj doc mode) (hspares : ev.Spares t id s) :
    Steady t id s s' := by
  by_cases hev : ev.WritesIssuers
  · have hbec := hd.because
    cases ev with
    | insertIssuer row r =>
      obtain ⟨-, subj, _, _, _, _, _, _, -, -, -, -, htx⟩ := hbec
      refine inv_of_transact (holds_createTx (fun hdef => holds_clear ?_) (holds_insert row)
        steady_grants) htx (.refl s)
      exact fun ht i hi hten hd _ => hspares ht hdef i hi hten hd
    | updateIssuer row r =>
      obtain ⟨-, subj, _, _, _, _, _, _, -, -, -, htx⟩ := hbec
      refine inv_of_transact (holds_updateTx (fun hdef => holds_clear ?_) (holds_update ?_)) htx
        (.refl s)
      · exact fun ht i hi hten hd hne =>
          ((hspares ht i hi hten hd).2 hne hdef).symm
      · exact fun ht i hi hten hd => (hspares ht i hi hten hd).1
    | deleteIssuer t' x r =>
      exact inv_of_transact (holds_deleteTx (holds_delete hspares.1 hspares.2) steady_grants)
        hbec.2 (.refl s)
    | importBackup t doc mode r =>
      obtain ⟨subj, hcall, -⟩ := hbec
      exact absurd hcall (hc subj doc mode)
    | _ => exact hev.elim
  · constructor
    · rw [hd.issuers_eq hev]
      have hsame : Steady t id s s := .refl s
      exact hsame.defaults
    · exact fun r hr => request_step hd hev hr

/-! ## Runs -/

section Runs

variable {db : Database} {as : List SysAct}

theorem steady_storeAt (hcalls : ∀ a ∈ as, a.Calls Call.OnApproval)
    (hcond : AllMeet P (Undisturbed t id) db as) (hmn : m ≤ n) (hn : n ≤ as.length) :
    Steady t id (storeAt P db as m) (storeAt P db as n) := by
  induction hmn with
  | refl => exact .refl _
  | @step n _ ih =>
    have hold := ih (Nat.le_of_succ_le hn)
    rcases moved (fun _ h => h.1) hcalls P db hn with hsame | ⟨j, c, h, e, ev, hop, hat⟩
    · rw [hsame]
      exact hold
    · exact hold.trans (steady_step hat.does hop.2 (hat.meets hcond ev hat.emits))

theorem request_agree (hcalls : ∀ a ∈ as, a.Calls Call.OnApproval)
    (hcond : AllMeet P (Undisturbed t id) db as) (hm : m ≤ as.length) (hn : n ≤ as.length)
    {r' : CertificateRequest} (hr : (storeAt P db as m).request? t id = some r)
    (hr' : (storeAt P db as n).request? t id = some r') :
    r.issuerID = r'.issuerID ∧ r.spiffeID = r'.spiffeID := by
  rcases Nat.le_total m n with hmn | hnm
  · obtain ⟨x, hx, hissuer, hspiffe⟩ := (steady_storeAt hcalls hcond hmn hn).request r hr
    rw [hr'] at hx
    cases hx
    exact ⟨hissuer.symm, hspiffe.symm⟩
  obtain ⟨x, hx, hissuer, hspiffe⟩ := (steady_storeAt hcalls hcond hnm hm).request r' hr'
  rw [hr] at hx
  cases hx
  exact ⟨hissuer, hspiffe⟩

theorem issuerFor_none {i : Issuer} (h : s.issuerFor t none td = some i) :
    i ∈ s.issuers.rows ∧ i.tenantID = t ∧ i.trustDomain = td ∧ i.isDefault = true := by
  have hp := find?_some h
  simp only [Bool.and_eq_true, beq_iff_eq] at hp
  exact ⟨mem_of_find?_eq_some h, hp.1.1, hp.1.2, hp.2⟩

theorem default_stays (hdb : db.OneDefault) (hcalls : ∀ a ∈ as, a.Calls Call.OnApproval)
    (hcond : AllMeet P (Undisturbed t id) db as) (hmn : m ≤ n) (hn : n ≤ as.length) {i i' : Issuer}
    (hi : (storeAt P db as m).issuerFor t none td = some i)
    (hi' : (storeAt P db as n).issuerFor t none td = some i') : i'.id = i.id := by
  obtain ⟨hmem, ht, htd, hdef⟩ := issuerFor_none hi
  obtain ⟨hmem', ht', htd', hdef'⟩ := issuerFor_none hi'
  obtain ⟨x, hx, hid, hxt, hxtd, hxd⟩ :=
    (steady_storeAt hcalls hcond hmn hn).defaults i hmem ht hdef
  have hone := Defaults.oneDefault_storeAt (P := P) hdb
    (fun a ha => Act.Calls.mono (fun _ h => h.1) (hcalls a ha)) hn
  obtain rfl := hone x hx i' hmem' hxd hdef' (hxt.trans ht'.symm) (hxtd.trans (htd.trans htd'.symm))
  exact hid

end Runs

end Approval

open Approval

/-- In every run that leaves alone what the request is issued from, its certificates come from an
issuer its approvers could write to. -/
theorem approver_holds_issuer {P : Platform} {db : Database} {as : List SysAct} {t id : Id}
    (hdb : db.OneDefault) (hcalls : ∀ a ∈ as, a.Calls Call.OnApproval)
    (hcond : AllMeet P (Undisturbed t id) db as) : ApproversHold P db as t id := by
  intro i j u v subj reason jobID job row hu hucall happrove hv hvcall hjt hjr hmint
  subst hjt hjr
  obtain ⟨-, m, h, e, hat⟩ := stepAt_of_hist (fun _ h => h.1) hcalls hu happrove
  obtain ⟨-, m', h', e', hat'⟩ := stepAt_of_hist (fun _ h => h.1) hcalls hv hmint
  rw [hucall] at hat
  rw [hvcall] at hat'
  obtain ⟨-, subj', _, issuerID, hc, ht, hrouted, hheld⟩ := hat.does.because
  cases hc
  obtain ⟨-, issuer, k, -, hrow, -, hsource⟩ := hat'.does.because
  -- the issuer of the certificate is the one the approver was checked against
  have hsame : row.issuerID = issuerID := by
    rcases hsource with ⟨-, hne⟩ | ⟨-, -, sid, -, hchosen⟩
    · exact absurd rfl (hne job)
    cases hchosen with
    | renewed _ _ _ _ _ _ _ _ _ hne => exact absurd rfl (hne job)
    | asked want hread _ _ hasked =>
      obtain ⟨htenant, req', k₀', -, hreq', rfl, hsid'⟩ := hasked job rfl
      obtain ⟨req, k₀, hreq, hroute⟩ := hrouted
      obtain ⟨_, _, _, hat₀, hreq⟩ := Saw.step hreq hat.trail
      obtain ⟨_, _, _, hat₀', hreq'⟩ := Saw.step hreq' hat'.trail
      obtain ⟨_, _, _, hatk, hread⟩ := Saw.step hread hat'.trail
      rw [htenant] at hread
      obtain ⟨hissuer, hspiffe⟩ := request_agree hcalls hcond (Nat.le_of_lt hat₀.lt)
        (Nat.le_of_lt hat₀'.lt) hreq hreq'
      rcases hroute with hpinned | ⟨hnone, sid₁, issuer₁, k₁, -, hsid, hid₁, hdefault⟩
      · rw [← hissuer, hpinned] at hread
        rw [hrow]
        exact Table.get?_key (Option.filter_eq_some_iff.1 hread).1
      obtain ⟨_, _, _, hat₁, hdefault⟩ := Saw.step hdefault hat.trail
      rw [hspiffe, hsid'] at hsid
      cases hsid
      rw [← hissuer, hnone] at hread
      rw [hrow, ← hid₁]
      rcases Nat.le_total k₁ k with hle | hle
      · exact default_stays hdb hcalls hcond hle (Nat.le_of_lt hatk.lt) hdefault hread
      · exact (default_stays hdb hcalls hcond hle (Nat.le_of_lt hat₁.lt) hread hdefault).symm
  obtain ⟨k, k', now, hk, hgrant, hclock⟩ := hheld
  obtain ⟨_, e₁, _, hat₁, hgrant⟩ := Saw.step hgrant hat.trail
  obtain ⟨_, e₂, _, hat₂, rfl⟩ := Saw.step hclock hat.trail
  rw [hsame]
  exact ⟨k, k', e₁, e₂, hk, hat₁.act, hat₂.act, hgrant⟩

namespace Sample

/-- A user who may write to the issuer of the sample, and to no other. -/
def bob : Subjects := ⟨1, "bob", [], ""⟩

/-- A request that names no issuer. -/
def openRequest : Database := { database with
  requests := ⟨[{ requestRow with issuerID := none }], by decide⟩
  grants := ⟨[⟨6, 1, .issuer, 3, .user, "bob", .editor, none, 0, none⟩], by decide⟩ }

/-- The job that the approval puts into the queue, as it is claimed. -/
def openJob : CertificateJob :=
  ⟨40, 1, 5, .issue, .processing, none, 1, 5, none, none, 0, 0⟩

/-- The user approves the request, an administrator creates another issuer, and the job runs. -/
def approveCreateProcess (isDefault : Bool) : List SysAct :=
  .spawn (.approveRequest bob 5 "") :: steps 0 8 40 ++
    .spawn (.createIssuer admin
      ⟨"second", "self_signed", "td", isDefault, true, "", "", "", .empty⟩) :: steps 1 4 50 ++
    .spawn (.processJob openJob) :: steps 2 15 60

/-- The user has approved the request, and the job has stored a certificate of the issuer. -/
def Minted (isDefault : Bool) (issuerID : Id) : Prop :=
  ∃ u v row, (runFrom platform openRequest (approveCreateProcess isDefault)).threads[0]? = some u ∧
    u.call = .approveRequest bob 5 "" ∧ .approve 1 5 40 (.ok ()) ∈ u.hist ∧
    (runFrom platform openRequest (approveCreateProcess isDefault)).threads[2]? = some v ∧
    v.call = .processJob openJob ∧ .insertCertificate row (.ok ()) ∈ v.hist ∧
    row.issuerID = issuerID

theorem minted {isDefault : Bool} {issuerID : Id}
    (hu : (runFrom platform openRequest (approveCreateProcess isDefault)).threads[0]?.any (fun u =>
      u.call = .approveRequest bob 5 "" ∧ .approve 1 5 40 (.ok ()) ∈ u.hist) = true)
    (hv : (runFrom platform openRequest (approveCreateProcess isDefault)).threads[2]?.any (fun v =>
      v.call = .processJob openJob ∧
        ∃ row ∈ v.hist.filterMap Ev.mints?, row.issuerID = issuerID) = true) :
    Minted isDefault issuerID := by
  obtain ⟨u, hu, happrove⟩ := (Option.any_eq_true _ _).1 hu
  obtain ⟨v, hv, hmint⟩ := (Option.any_eq_true _ _).1 hv
  obtain ⟨hucall, happrove⟩ := of_decide_eq_true happrove
  obtain ⟨hvcall, row, hrow, hissuer⟩ := of_decide_eq_true hmint
  obtain ⟨ev, hev, hmints⟩ := mem_filterMap.1 hrow
  obtain rfl := Ev.mints?_eq_some hmints
  exact ⟨u, v, row, hu, hucall, happrove, hv, hvcall, hev, hissuer⟩

end Sample

open Sample

/-- The default has moved to an issuer that the approver may not write to. -/
theorem default_moved_after_approval :
    ¬ApproversHold platform openRequest (approveCreateProcess true) 1 5 := by
  intro hhold
  obtain ⟨u, v, row, hu, hucall, happrove, hv, hvcall, hmint, hissuer⟩ :=
    @minted true 50 (by decide +kernel) (by decide +kernel)
  obtain ⟨k, k', e, e', -, ha, ha', hheld⟩ :=
    hhold 0 2 u v bob "" 40 openJob row hu hucall happrove hv hvcall rfl rfl hmint
  rw [hissuer] at hheld
  -- at no place of the run a grant lets the user write to the new issuer
  have hclock : e'.clock = 100 := by
    have hmem := mem_of_getElem? ha'
    simp [approveCreateProcess, steps, env] at hmem
    rw [hmem]
  have hnone : ∀ k < (approveCreateProcess true).length, ¬Authz.Granted
      (storeAt platform openRequest (approveCreateProcess true) k) bob
      .issuer 50 .write 100 := by decide +kernel
  rw [hclock] at hheld
  rcases hheld with hadmin | hgranted
  · cases hadmin
  · exact hnone k (List.getElem?_eq_some_iff.1 ha).1 hgranted

theorem approver_holds_sample :
    Minted false 3 ∧
      ApproversHold platform openRequest (approveCreateProcess false) 1 5 := by
  refine ⟨minted (by decide +kernel) (by decide +kernel), ?_⟩
  refine approver_holds_issuer (by decide) ?_ (by decide +kernel)
  simp [approveCreateProcess, steps, Act.Calls, Call.OnApproval, Call.OnIssuance]

end Lcm
