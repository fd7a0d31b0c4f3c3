import Lcm.Transfer.Invariants

/-!
# A document that fills an empty tenant

In a tenant that has nothing, an import in skip mode finds nothing to skip: every item of the
document becomes a row, under the next id that is drawn. This needs a document whose items do not
clash with one another and whose references can be resolved within it, for a statement that
violates a constraint aborts the whole transaction.

* `Coherent`: what such a document is like.
* `Stage`: what a loop has made of the items it has been through.
* `importTx_fills`: the import commits, and the rows of the tenant are those made of the items.
-/

namespace Lcm.Transfer

open Db Svc List Tx Sql Table

variable {P : Platform}

/-! ## Documents -/

variable (P) in
/-- Neither the importer nor the database takes one of the issuers for the other. -/
def Separate (a b : DocIssuer) : Prop :=
  P.toLower a.name ≠ P.toLower b.name ∧ P.sqlLower a.name ≠ P.sqlLower b.name ∧
    ¬ (a.isDefault = true ∧ b.isDefault = true ∧ a.trustDomain = b.trustDomain)

variable (P) in
/-- The references name the same resource to an import. -/
def SameRef (type : ResourceType) (ref ref' : String) : Prop :=
  match type with
  | .issuer => P.toLower ref = P.toLower ref'
  | .certificate => ref = ref'

/-- The reference is to an item of the document. -/
def Document.Names (doc : Document) (type : ResourceType) (ref : String) : Prop :=
  match type with
  | .issuer => ∃ di ∈ doc.issuers, di.name = ref
  | .certificate => ∃ dc ∈ doc.certificates, dc.serial = ref

variable (P) in
/-- The items of the document are within the limits of `Import` and of the tables, do not clash,
and refer to one another only. -/
structure Coherent (doc : Document) : Prop where
  bounds : doc.issuers.length ≤ maxIssuers ∧ doc.certificates.length ≤ maxCerts ∧
    doc.secrets.length ≤ maxSecrets ∧ doc.permissions.length ≤ maxGrants
  issuers : doc.issuers.Pairwise (Separate P)
  issuer : ∀ di ∈ doc.issuers,
    lengthBetween 1 100 di.name = true ∧ lengthBetween 1 253 di.trustDomain = true
  certificates : doc.certificates.Pairwise fun a b => a.serial ≠ b.serial
  certificate : ∀ dc ∈ doc.certificates,
    lengthBetween 0 2048 dc.spiffeID = true ∧ ∃ di ∈ doc.issuers, di.name = dc.issuer
  permissions : doc.permissions.Pairwise fun a b => ¬ (a.resourceType = b.resourceType ∧
    SameRef P a.resourceType a.resourceRef b.resourceRef ∧
    a.subjectType = b.subjectType ∧ a.subjectID = b.subjectID)
  permission : ∀ dp ∈ doc.permissions, doc.Names dp.resourceType dp.resourceRef
  secret : ∀ ds ∈ doc.secrets, lengthBetween 1 100 ds.name = true

variable (P) in
/-- The settings and secrets of the document can be put under seal. -/
structure Sealable (doc : Document) : Prop where
  issuers : ∀ di ∈ doc.issuers, ∀ nonce id,
    ∃ x, sealIssuer P nonce id di.settings di.credentials = .ok x
  secrets : ∀ ds ∈ doc.secrets, ∀ nonce id, ∃ blob, sealSecretValue P nonce id ds.value = .ok blob

/-- The ids that are drawn are new. -/
structure FreshIds (e : Env) (s : Database) : Prop where
  inj : Function.Injective e.newID
  issuers : ∀ i ∈ s.issuers.rows, ∀ k, i.id ≠ e.newID k
  certificates : ∀ c ∈ s.certificates.rows, ∀ k, c.id ≠ e.newID k
  grants : ∀ g ∈ s.grants.rows, ∀ k, g.id ≠ e.newID k
  secrets : ∀ r ∈ s.secrets.rows, ∀ k, r.id ≠ e.newID k

structure EmptyTenant (s : Database) (t : Id) : Prop where
  issuers : ∀ i ∈ s.issuers.rows, i.tenantID ≠ t
  certificates : ∀ c ∈ s.certificates.rows, c.tenantID ≠ t
  grants : ∀ g ∈ s.grants.rows, g.tenantID ≠ t
  secrets : ∀ r ∈ s.secrets.rows, r.tenantID ≠ t
  revocations : ∀ v ∈ s.revocations.rows, v.tenantID ≠ t

/-! ## Loops -/

section Stage

variable {α ρ : Type} {key : ρ → Id} (get : Database → Table key)
  (set : Database → Table key → Database) {e : Env} {R : α → ρ → Prop} {s : Database}
  {items : List α} {new : List ρ} {ss : Session Database}

/-- A loop over `items` has made the rows `new` of them, in one table, and nothing else. -/
structure Stage (e : Env) (R : α → ρ → Prop) (s : Database) (items : List α) (new : List ρ)
    (ss : Session Database) : Prop where
  alive : ss.aborted = false
  frame : ss.db = set s (get ss.db)
  filled : Filled e.newID R (get s) items new (get ss.db) ss.draws

variable {get set}

theorem Stage.mem (h : Stage get set e R s items new ss) {r : ρ} :
    r ∈ (get ss.db).rows ↔ r ∈ (get s).rows ∨ r ∈ new := by
  rw [h.filled.rows, mem_append]

theorem Stage.exists_item (h : Stage get set e R s items new ss) {r : ρ} (hr : r ∈ new) :
    ∃ a ∈ items, R a r := (matched_of_forall₂ h.filled.made).2 r hr

theorem Stage.start (hframe : s = set s (get s)) (hopen : ss.aborted = false) (hdb : ss.db = s) :
    Stage get set e R s [] [] ss := by
  subst hdb
  exact ⟨hopen, hframe, Filled.nil _ _⟩

theorem Stage.insert (h : Stage get set e R s items new ss) (hgs : ∀ db t, get (set db t) = t)
    (hss : ∀ db t t', set (set db t) t' = set db t') (hinj : Function.Injective e.newID)
    (hfree : ∀ r ∈ (get s).rows, ∀ k, key r ≠ e.newID k) {a : α} {r : ρ} (hr : R a r)
    (hkey : key r = e.newID ss.draws) {n : Nat} (hn : ss.draws < n) :
    ∃ t, (get ss.db).insert? r = some t ∧
      Stage get set e R s (items ++ [a]) (new ++ [r]) ⟨set ss.db t, ss.aborted, n⟩ := by
  obtain ⟨t, hins, hfilled⟩ := h.filled.insert hinj hfree hr hkey hn
  refine ⟨t, hins, h.alive, ?_, ?_⟩
  · show set ss.db t = set s (get (set ss.db t))
    rw [hgs, h.frame, hss]
  · show Filled e.newID R (get s) _ _ (get (set ss.db t)) n
    rw [hgs]
    exact hfilled

/-- The index has the ids of the rows under their texts. -/
def IndexOf (text : ρ → String) (key : ρ → Id) (new : List ρ) (idx : Index) : Prop :=
  ∀ x, x ∈ idx ↔ ∃ r ∈ new, (text r, key r) = x

variable {text : ρ → String} {idx : Index}

theorem IndexOf.cons (h : IndexOf text key new idx) (r : ρ) :
    IndexOf text key (new ++ [r]) ((text r, key r) :: idx) := by
  intro x
  rw [mem_cons, h x]
  simp only [mem_append, mem_singleton, or_and_right, exists_or, exists_eq_left]
  rw [or_comm, eq_comm]

theorem IndexOf.of_lookup (h : IndexOf text key new idx) {k : String} {id : Id}
    (hk : idx.lookup k = some id) : ∃ r ∈ new, text r = k ∧ key r = id := by
  obtain ⟨r, hr, hx⟩ := (h _).1 (mem_of_lookup hk)
  exact ⟨r, hr, (Prod.mk.inj hx).1, (Prod.mk.inj hx).2⟩

theorem IndexOf.exists_lookup (h : IndexOf text key new idx) {r : ρ} (hr : r ∈ new) :
    ∃ id, idx.lookup (text r) = some id := by
  cases hk : idx.lookup (text r) with
  | some id => exact ⟨id, rfl⟩
  | none =>
    have hno := lookup_eq_none_iff.1 hk _ ((h _).2 ⟨r, hr, rfl⟩)
    simp at hno

end Stage

section Statements

variable {α ρ : Type} {key : ρ → Id} {get : Database → Table key}
  {set : Database → Table key → Database} {e : Env} {ss ss' : Session Database}

theorem insertOr_created {m : Sql Unit} {created skipped : α} (h : m e ss = (.ok (), ss')) :
    insertOr m created skipped e ss = (.ok created, ss') :=
  bind_ok.2 ⟨.ok (), ss', attempt_ok.2 h, rfl⟩

theorem checked_insertRow {ok : Bool} (hok : ok = true) {violates : Database → Bool} {err : Err}
    {r : ρ} {t : Table key} (hopen : ss.aborted = false) (hv : violates ss.db = false)
    (hins : (get ss.db).insert? r = some t) :
    checked ok (insertRow get set violates err r) e ss =
      (.ok (), { ss with db := set ss.db t }) := by
  simp [checked, insertRow, Tx.stmt, hok, hopen, hv, hins]

end Statements

/-! ## The four tables -/

variable (P) in
/-- The issuer is what an import makes of `di`. -/
structure MadeFrom (t : Id) (di : DocIssuer) (r : Issuer) : Prop where
  tenantID : r.tenantID = t
  name : r.name = di.name
  type : r.type = di.type
  trustDomain : r.trustDomain = di.trustDomain
  isDefault : r.isDefault = di.isDefault
  enabled : r.enabled = true
  acmeDirectoryURL : r.acmeDirectoryURL = ""
  acmeEmail : r.acmeEmail = ""
  dnsProvider : r.dnsProvider = ""
  settings : ∃ nonce, sealIssuer P nonce r.id di.settings di.credentials
    = .ok (r.settingsSealed, r.settingsPublic)

variable (P) in
/-- The certificate is what an import makes of `dc`, under the issuer of that name. -/
def RestoredFrom (subj : Subjects) (issuers : Index) (dc : DocCertificate)
    (c : IssuedCertificate) : Prop :=
  ∃ issuerID id now, issuers.lookup (P.toLower dc.issuer) = some issuerID ∧
    c = (importedRow subj issuerID id dc).stored now

/-- The grant is what an import makes of `dp`, on the resource that it resolves to. -/
structure GrantedBy (t : Id) (rid? : Option Id) (dp : DocPermission) (g : Grant) : Prop where
  tenantID : g.tenantID = t
  resource : rid? = some g.resourceID
  resourceType : g.resourceType = dp.resourceType
  subjectType : g.subjectType = dp.subjectType
  subjectID : g.subjectID = dp.subjectID
  relation : g.relation = dp.relation
  expiresAt : g.expiresAt = dp.expiresAt

section Fill

variable {e : Env} {s : Database} {subj : Subjects} {doc : Document} {rep : Report}
  {ss : Session Database}

theorem apart_of_done {α : Type} {R : α → α → Prop} {l done rest : List α} {a : α}
    (h : l.Pairwise R) (hl : l = done ++ a :: rest) : a ∈ l ∧ ∀ b ∈ done, R b a := by
  rw [hl] at h ⊢
  exact ⟨mem_append_right _ mem_cons_self,
    fun b hb => (pairwise_append.1 h).2.2 b hb a mem_cons_self⟩

variable (P subj e s) in
/-- The issuers that are made of the items, with their index. -/
def IssuersIn (items : List DocIssuer) (acc : Index × Report) (ss : Session Database) : Prop :=
  ∃ new, Stage Database.issuers (fun db t => { db with issuers := t }) e
    (MadeFrom P subj.tenantID) s items new ss ∧
    IndexOf (fun r => P.toLower r.name) Issuer.id new acc.1

theorem importIssuer_fills (hdoc : Coherent P doc) (hseal : Sealable P doc) (hids : FreshIds e s)
    (hempty : ∀ i ∈ s.issuers.rows, i.tenantID ≠ subj.tenantID) {done rest : List DocIssuer}
    {di : DocIssuer} (hl : doc.issuers = done ++ di :: rest) (acc : Index × Report)
    (ss : Session Database) (h : IssuersIn P e s subj done acc ss) :
    ∃ acc' ss', importIssuer P subj "skip" acc di e ss = (.ok acc', ss') ∧
      IssuersIn P e s subj (done ++ [di]) acc' ss' := by
  obtain ⟨new, hstage, hidx⟩ := h
  obtain ⟨hdi, hapart⟩ := apart_of_done hdoc.issuers hl
  -- the name is new to the importer
  have hnone : acc.1.lookup (P.toLower di.name) = none := by
    rw [Option.eq_none_iff_forall_ne_some]
    intro id hid
    obtain ⟨r, hr, hname, -⟩ := hidx.of_lookup hid
    obtain ⟨d, hd, hmade⟩ := hstage.exists_item hr
    exact (hapart d hd).1 (hmade.name ▸ hname)
  obtain ⟨⟨blob, shown⟩, hsealed⟩ := hseal.issuers di hdi (e.nonce + (ss.draws + 1))
    (e.newID ss.draws)
  let row : Issuer := ⟨e.newID ss.draws, subj.tenantID, di.name, di.type, di.trustDomain,
    di.isDefault, none, "", "", "", shown, blob, true, actorPtr subj, actorPtr subj⟩
  -- and to the database
  have hclash : issuerClash P row ss.db = false := by
    refine Bool.or_eq_false_iff.2 ⟨rfl, any_eq_false.2 fun o ho hbad => ?_⟩
    simp only [Bool.and_eq_true, Bool.or_eq_true, beq_iff_eq] at hbad
    obtain ⟨⟨-, htenant⟩, hsame⟩ := hbad
    rcases hstage.mem.1 ho with ho | ho
    · exact hempty o ho htenant
    obtain ⟨d, hd, hmade⟩ := hstage.exists_item ho
    obtain ⟨-, hname, hdefault⟩ := hapart d hd
    rcases hsame with hsame | ⟨⟨hd1, hd2⟩, htd⟩
    · exact hname (hmade.name ▸ hsame)
    · exact hdefault ⟨hmade.isDefault ▸ hd1, hd2, hmade.trustDomain ▸ htd⟩
  obtain ⟨tbl, hins, hstage'⟩ := hstage.insert (a := di) (r := row) (n := ss.draws + 2)
    (fun _ _ => rfl) (fun _ _ _ => rfl) hids.inj hids.issuers
    ⟨rfl, rfl, rfl, rfl, rfl, rfl, rfl, rfl, rfl, _, hsealed⟩ rfl (by omega)
  have hchecks : issuerChecks row = true := Bool.and_eq_true_iff.2 (hdoc.issuer di hdi)
  refine ⟨((P.toLower di.name, row.id) :: acc.1,
    { acc.2 with issuersCreated := acc.2.issuersCreated + 1 }), _, ?_, new ++ [row], hstage',
    hidx.cons row⟩
  simp only [importIssuer, hnone]
  refine bind_ok.2 ⟨_, _, draw_ok.2 ⟨rfl, rfl⟩, bind_ok.2 ⟨_, _, draw_ok.2 ⟨rfl, rfl⟩, ?_⟩⟩
  refine bind_ok.2 ⟨_, _, ofExcept_ok.2 ⟨hsealed, rfl⟩, insertOr_created ?_⟩
  exact checked_insertRow hchecks hstage.alive hclash hins

theorem importIssuers_fills (rep : Report) (hdoc : Coherent P doc) (hseal : Sealable P doc)
    (hids : FreshIds e s) (hempty : ∀ i ∈ s.issuers.rows, i.tenantID ≠ subj.tenantID) (hopen : ss.aborted = false)
    (hdb : ss.db = s) :
    ∃ acc ss', importIssuers P subj doc "skip" rep e ss = (.ok acc, ss') ∧
      IssuersIn P e s subj doc.issuers acc ss' := by
  have hlisting : issuerListing P s subj.tenantID = [] := by
    refine eq_nil_iff_forall_not_mem.2 fun i hi => ?_
    exact hempty i (mem_issuerListing hi).1 (mem_issuerListing hi).2
  have hlist : listIssuers P subj.tenantID "" maxIssuers e ss = (.ok [], ss) :=
    query_ok.2 ⟨hopen, by rw [hdb]; exact congrArg Except.ok hlisting, rfl⟩
  obtain ⟨acc, ss', hloop, hend⟩ := foldlM_total
    (fun done di rest hl acc ss => importIssuer_fills hdoc hseal hids hempty hl acc ss)
    (b := (([] : Index), rep)) ⟨[], .start rfl hopen hdb, fun x => by simp⟩
  exact ⟨acc, ss', bind_ok.2 ⟨[], ss, hlist, hloop⟩, hend⟩

variable (P subj e s) in
/-- The certificates that are made of the items, with their index. -/
def CertificatesIn (issuers : Index) (items : List DocCertificate) (acc : Index × Report)
    (ss : Session Database) : Prop :=
  ∃ new, Stage Database.certificates (fun db t => { db with certificates := t }) e
    (RestoredFrom P subj issuers) s items new ss ∧
    IndexOf IssuedCertificate.serial IssuedCertificate.id new acc.1

variable {issuers certs : Index}

theorem importCertificate_fills (hdoc : Coherent P doc) (hinj : Function.Injective e.newID)
    (hfree : ∀ r ∈ s.certificates.rows, ∀ k, r.id ≠ e.newID k)
    (hempty : ∀ c ∈ s.certificates.rows, c.tenantID ≠ subj.tenantID)
    (hknown : ∀ dc ∈ doc.certificates, ∃ id, issuers.lookup (P.toLower dc.issuer) = some id ∧
      (s.issuers.get? id).isSome) {done rest : List DocCertificate} {dc : DocCertificate}
    (hl : doc.certificates = done ++ dc :: rest) (acc : Index × Report) (ss : Session Database)
    (h : CertificatesIn P e s subj issuers done acc ss) :
    ∃ acc' ss', importCertificate P subj "skip" issuers acc dc e ss = (.ok acc', ss') ∧
      CertificatesIn P e s subj issuers (done ++ [dc]) acc' ss' := by
  obtain ⟨new, hstage, hidx⟩ := h
  obtain ⟨hdc, hapart⟩ := apart_of_done hdoc.certificates hl
  obtain ⟨issuerID, hissuer, hstored⟩ := hknown dc hdc
  have hserial : ∀ c ∈ new, c.serial ≠ dc.serial := by
    intro c hc heq
    obtain ⟨d, hd, _, _, _, -, rfl⟩ := hstage.exists_item hc
    exact hapart d hd heq
  have hnone : acc.1.lookup dc.serial = none := by
    rw [Option.eq_none_iff_forall_ne_some]
    intro id hid
    obtain ⟨c, hc, heq, -⟩ := hidx.of_lookup hid
    exact hserial c hc heq
  let row := (importedRow subj issuerID (e.newID ss.draws) dc).stored e.dbNow
  obtain ⟨tbl, hins, hstage'⟩ := hstage.insert (a := dc) (r := row) (n := ss.draws + 1)
    (fun _ _ => rfl) (fun _ _ _ => rfl) hinj hfree
    ⟨issuerID, _, _, hissuer, rfl⟩ rfl (Nat.lt_succ_self _)
  refine ⟨((dc.serial, e.newID ss.draws) :: acc.1, acc.2.countCertificate), _, ?_, new ++ [row],
    hstage', hidx.cons row⟩
  simp only [importCertificate, hissuer, hnone]
  refine bind_ok.2 ⟨_, _, draw_ok.2 ⟨rfl, rfl⟩, insertOr_created ?_⟩
  refine bind_ok.2 ⟨e.dbNow, _, ask_ok.2 ⟨rfl, rfl⟩, ?_⟩
  refine checked_insertRow (hdoc.certificate dc hdc).1 hstage.alive ?_ hins
  refine Bool.or_eq_false_iff.2 ⟨?_, any_eq_false.2 fun o ho hbad => ?_⟩
  · show (ss.db.issuers.get? issuerID).isNone = false
    rw [hstage.frame, Option.isNone_eq_false_iff]
    exact hstored
  simp only [Bool.and_eq_true, beq_iff_eq] at hbad
  rcases hstage.mem.1 ho with ho | ho
  · exact hempty o ho hbad.1
  · exact hserial o ho hbad.2

theorem importCertificates_fills (rep : Report) (hdoc : Coherent P doc)
    (hinj : Function.Injective e.newID)
    (hfree : ∀ r ∈ s.certificates.rows, ∀ k, r.id ≠ e.newID k)
    (hempty : ∀ c ∈ s.certificates.rows, c.tenantID ≠ subj.tenantID)
    (hknown : ∀ dc ∈ doc.certificates, ∃ id, issuers.lookup (P.toLower dc.issuer) = some id ∧
      (s.issuers.get? id).isSome) (hopen : ss.aborted = false) (hdb : ss.db = s) :
    ∃ acc ss', importCertificates P subj doc "skip" issuers rep e ss = (.ok acc, ss') ∧
      CertificatesIn P e s subj issuers doc.certificates acc ss' := by
  have hrows : (s.certificates.rows.filter fun c =>
      c.tenantID == subj.tenantID && Shown firstPage c) = [] := by
    refine filter_eq_nil_iff.2 fun c hc hbad => hempty c hc ?_
    simpa using (Bool.and_eq_true_iff.1 hbad).1
  have hbatch : listCertificates subj.tenantID firstPage e ss = (.ok [], ss) := by
    refine query_ok.2 ⟨hopen, ?_, rfl⟩
    rw [hdb, hrows]
    rfl
  have hlist : listAllCertificatesTx subj.tenantID e ss = (.ok [], ss) :=
    bind_ok.2 ⟨[], ss, hbatch, rfl⟩
  obtain ⟨acc, ss', hloop, hend⟩ := foldlM_total
    (fun done dc rest hl acc ss => importCertificate_fills hdoc hinj hfree hempty hknown hl acc ss)
    (b := (([] : Index), rep)) ⟨[], .start rfl hopen hdb, fun x => by simp⟩
  exact ⟨acc, ss', bind_ok.2 ⟨[], ss, hlist, hloop⟩, hend⟩

variable (P subj e s) in
/-- The grants that are made of the items. -/
def GrantsIn (issuers certs : Index) (items : List DocPermission) (ss : Session Database) : Prop :=
  ∃ new, Stage Database.grants (fun db t => { db with grants := t }) e
    (fun dp => GrantedBy subj.tenantID (resourceID P issuers certs dp) dp) s items new ss

theorem importGrants_fills (rep : Report) (hdoc : Coherent P doc)
    (hinj : Function.Injective e.newID)
    (hfree : ∀ r ∈ s.grants.rows, ∀ k, r.id ≠ e.newID k)
    (hempty : ∀ g ∈ s.grants.rows, g.tenantID ≠ subj.tenantID)
    (hknown : ∀ dp ∈ doc.permissions, ∃ id, resourceID P issuers certs dp = some id)
    (hsame : ∀ a b : DocPermission, a.resourceType = b.resourceType → ∀ id,
      resourceID P issuers certs a = some id → resourceID P issuers certs b = some id →
      SameRef P a.resourceType a.resourceRef b.resourceRef)
    (hopen : ss.aborted = false) (hdb : ss.db = s) :
    ∃ rep' ss', importGrants P subj doc issuers certs rep e ss = (.ok rep', ss') ∧
      GrantsIn P e s subj issuers certs doc.permissions ss' := by
  refine foldlM_total (I := fun done _ ss => GrantsIn P e s subj issuers certs done ss)
    (fun done dp rest hl rep ss h => ?_) ⟨[], .start rfl hopen hdb⟩
  obtain ⟨new, hstage⟩ := h
  obtain ⟨hdp, hapart⟩ := apart_of_done hdoc.permissions hl
  obtain ⟨rid, hrid⟩ := hknown dp hdp
  let row : Grant :=
    { id := e.newID ss.draws, tenantID := subj.tenantID, resourceType := dp.resourceType,
      resourceID := rid, subjectType := dp.subjectType, subjectID := dp.subjectID,
      relation := dp.relation, grantedBy := actorPtr subj, grantedAt := e.dbNow,
      expiresAt := dp.expiresAt }
  -- the subject has no grant on the resource yet, so the upsert is an insert
  have hfind : ss.db.grants.rows.find? (SameGrant row) = none := by
    refine find?_eq_none.2 fun o ho hbad => ?_
    simp only [SameGrant, Bool.and_eq_true, beq_iff_eq] at hbad
    obtain ⟨⟨⟨⟨htenant, htype⟩, hres⟩, hsubject⟩, hid⟩ := hbad
    rcases hstage.mem.1 ho with ho | ho
    · exact hempty o ho htenant
    obtain ⟨d, hd, hby⟩ := hstage.exists_item ho
    have hty : d.resourceType = dp.resourceType := hby.resourceType.symm.trans htype
    refine hapart d hd ⟨hty, hsame d dp hty rid (hby.resource.trans (congrArg some hres)) hrid, ?_, ?_⟩
    · exact hby.subjectType.symm.trans hsubject
    · exact hby.subjectID.symm.trans hid
  obtain ⟨tbl, hins, hstage'⟩ := hstage.insert (a := dp) (r := row) (n := ss.draws + 1)
    (fun _ _ => rfl) (fun _ _ _ => rfl) hinj hfree
    ⟨rfl, hrid, rfl, rfl, rfl, rfl, rfl⟩ rfl (Nat.lt_succ_self _)
  refine ⟨{ rep with grantsCreated := rep.grantsCreated + 1 }, _, ?_, new ++ [row], hstage'⟩
  simp only [importGrant, hrid]
  refine bind_ok.2 ⟨_, _, draw_ok.2 ⟨rfl, rfl⟩, bind_ok.2 ⟨row, _, ?_, rfl⟩⟩
  refine bind_ok.2 ⟨e.dbNow, _, ask_ok.2 ⟨rfl, rfl⟩, stmt_ok.2 ⟨hstage.alive, _, ?_, rfl⟩⟩
  dsimp only [row] at hfind hins
  simp only [hfind, hins]
  rfl

variable (e s) in
/-- Some secrets have been made. -/
def SecretsIn (ss : Session Database) : Prop :=
  ∃ items new, Stage Database.secrets (fun db t => { db with secrets := t }) e
    (fun (_ : Unit) _ => True) s items new ss

theorem importSecrets_fills (subj : Subjects) (rep : Report) (hdoc : Coherent P doc)
    (hseal : Sealable P doc) (hinj : Function.Injective e.newID)
    (hfree : ∀ r ∈ s.secrets.rows, ∀ k, r.id ≠ e.newID k)
    (hopen : ss.aborted = false) (hdb : ss.db = s) :
    ∃ rep' ss', importSecrets P subj doc "skip" rep e ss = (.ok rep', ss') ∧ SecretsIn e s ss' := by
  refine foldlM_total (I := fun _ _ ss => SecretsIn e s ss) (fun done ds rest hl rep ss h => ?_)
    ⟨[], [], .start rfl hopen hdb⟩
  obtain ⟨items, new, hstage⟩ := h
  have hds : ds ∈ doc.secrets := hl ▸ mem_append_right _ mem_cons_self
  have hquery : (secretByName P subj.tenantID ds.name).attempt e ss = (.ok (found
      (ss.db.secrets.rows.find? fun o => o.tenantID == subj.tenantID &&
        P.sqlLower o.name == P.sqlLower ds.name)), ss) := attempt_ok.2 (query_eq hstage.alive)
  cases hfind : ss.db.secrets.rows.find? fun o => o.tenantID == subj.tenantID &&
      P.sqlLower o.name == P.sqlLower ds.name with
  | some existing =>
    -- a second secret of the name is skipped
    rw [hfind] at hquery
    exact ⟨rep, ss, bind_ok.2 ⟨.ok existing, ss, hquery, rfl⟩, items, new, hstage⟩
  | none =>
    rw [hfind] at hquery
    obtain ⟨blob, hblob⟩ := hseal.secrets ds hds (e.nonce + (ss.draws + 1)) (e.newID ss.draws)
    let row : TenantSecret := ⟨e.newID ss.draws, subj.tenantID, ds.name, ds.kind, blob,
      actorPtr subj, actorPtr subj⟩
    have hclash : secretClash P row ss.db = false := by
      refine any_eq_false.2 fun o ho hbad => find?_eq_none.1 hfind o ho ?_
      simp only [Bool.and_eq_true] at hbad ⊢
      exact ⟨hbad.1.2, hbad.2⟩
    obtain ⟨tbl, hins, hstage'⟩ := hstage.insert (a := ()) (r := row) (n := ss.draws + 2)
      (fun _ _ => rfl) (fun _ _ _ => rfl) hinj hfree trivial rfl (by omega)
    refine ⟨{ rep with secretsCreated := rep.secretsCreated + 1 }, _, ?_, _, _, hstage'⟩
    refine bind_ok.2 ⟨.error .notFound, ss, hquery, ?_⟩
    refine bind_ok.2 ⟨_, _, draw_ok.2 ⟨rfl, rfl⟩, bind_ok.2 ⟨_, _, draw_ok.2 ⟨rfl, rfl⟩, ?_⟩⟩
    refine bind_ok.2 ⟨_, _, ofExcept_ok.2 ⟨hblob, rfl⟩, insertOr_created ?_⟩
    exact checked_insertRow (hdoc.secret ds hds) hstage.alive hclash hins

end Fill

/-! ## The whole import -/

variable (P) in
/-- The issuers, certificates and grants that `s'` has besides those of `s` are made of those of
the document. -/
structure Refilled (subj : Subjects) (doc : Document) (s s' : Database) (idx idx' : Index)
    (ni : List Issuer) (nc : List IssuedCertificate) (ng : List Grant) : Prop where
  issuers : Forall₂ (MadeFrom P subj.tenantID) doc.issuers ni
  certificates : Forall₂ (RestoredFrom P subj idx) doc.certificates nc
  grants : Forall₂ (fun dp => GrantedBy subj.tenantID (resourceID P idx idx' dp) dp)
    doc.permissions ng
  issuerRows : s'.issuers.rows = s.issuers.rows ++ ni
  certRows : s'.certificates.rows = s.certificates.rows ++ nc
  grantRows : s'.grants.rows = s.grants.rows ++ ng
  issuerIndex : IndexOf (fun r => P.toLower r.name) Issuer.id ni idx
  certIndex : IndexOf IssuedCertificate.serial IssuedCertificate.id nc idx'
  revocations : s'.revocations = s.revocations

theorem IndexOf.text_eq {ρ : Type} {text : ρ → String} {key : ρ → Id} {new : List ρ} {idx : Index}
    (h : IndexOf text key new idx) {t : Table key} (hmem : ∀ r ∈ new, r ∈ t.rows) {k k' : String}
    {id : Id} (hk : idx.lookup k = some id) (hk' : idx.lookup k' = some id) : k = k' := by
  obtain ⟨r, hr, rfl, hid⟩ := h.of_lookup hk
  obtain ⟨r', hr', rfl, hid'⟩ := h.of_lookup hk'
  rw [t.eq_of_key_eq (hmem r hr) (hmem r' hr') (hid.trans hid'.symm)]

theorem importTx_fills {doc : Document} {e : Env} {s : Database} {subj : Subjects}
    (hdoc : Coherent P doc) (hseal : Sealable P doc) (hids : FreshIds e s)
    (hempty : EmptyTenant s subj.tenantID) :
    ∃ rep ss', importTx P subj doc "skip" e ⟨s, false, 0⟩ = (.ok rep, ss') ∧ ss'.aborted = false ∧
      ∃ idx idx' ni nc ng, Refilled P subj doc s ss'.db idx idx' ni nc ng := by
  have hbegun : (⟨s, false, 0⟩ : Session Database).aborted = false := rfl
  obtain ⟨⟨idx, rep1⟩, ss1, hrun1, ni, hstage1, hidx⟩ :=
    importIssuers_fills .empty hdoc hseal hids hempty.issuers hbegun rfl
  have hnamed : ∀ di ∈ doc.issuers, ∃ id, idx.lookup (P.toLower di.name) = some id ∧
      (ss1.db.issuers.get? id).isSome := by
    intro di hdi
    obtain ⟨r, hr, hmade⟩ := (matched_of_forall₂ hstage1.filled.made).1 di hdi
    obtain ⟨id, hid⟩ := hidx.exists_lookup hr
    obtain ⟨r', hr', -, rfl⟩ := hidx.of_lookup hid
    refine ⟨r'.id, hmade.name ▸ hid, ?_⟩
    rw [get?_of_mem (hstage1.mem.2 (.inr hr'))]
    rfl
  have hdb1 := hstage1.frame
  obtain ⟨⟨idx', rep2⟩, ss2, hrun2, nc, hstage2, hidx'⟩ := importCertificates_fills rep1
    (s := ss1.db) hdoc hids.inj (by rw [hdb1]; exact hids.certificates)
    (by rw [hdb1]; exact hempty.certificates) (fun dc hdc => by
      obtain ⟨-, di, hdi, hname⟩ := hdoc.certificate dc hdc
      exact hname ▸ hnamed di hdi) hstage1.alive rfl
  have hdb2 := hstage2.frame
  -- what the document refers to has an id by now, and only one
  have hknown : ∀ dp ∈ doc.permissions, ∃ id, resourceID P idx idx' dp = some id := by
    intro dp hdp
    have hnames := hdoc.permission dp hdp
    unfold resourceID
    cases htype : dp.resourceType with
    | issuer =>
      rw [htype] at hnames
      obtain ⟨di, hdi, hname⟩ := hnames
      obtain ⟨id, hid, -⟩ := hnamed di hdi
      exact ⟨id, hname ▸ hid⟩
    | certificate =>
      rw [htype] at hnames
      obtain ⟨dc, hdc, hserial⟩ := hnames
      obtain ⟨c, hc, _, _, _, -, rfl⟩ := (matched_of_forall₂ hstage2.filled.made).1 dc hdc
      exact hserial ▸ hidx'.exists_lookup hc
  have hsame : ∀ a b : DocPermission, a.resourceType = b.resourceType → ∀ id,
      resourceID P idx idx' a = some id → resourceID P idx idx' b = some id →
      SameRef P a.resourceType a.resourceRef b.resourceRef := by
    intro a b hty id ha hb
    unfold resourceID at ha hb
    rw [← hty] at hb
    cases htype : a.resourceType with
    | issuer =>
      simp only [htype] at ha hb
      exact hidx.text_eq (fun r hr => hstage1.mem.2 (.inr hr)) ha hb
    | certificate =>
      simp only [htype] at ha hb
      exact hidx'.text_eq (fun c hc => hstage2.mem.2 (.inr hc)) ha hb
  obtain ⟨rep3, ss3, hrun3, ng, hstage3⟩ := importGrants_fills rep2 (s := ss2.db) hdoc
    hids.inj (by rw [hdb2, hdb1]; exact hids.grants) (by rw [hdb2, hdb1]; exact hempty.grants)
    hknown hsame hstage2.alive rfl
  have hdb3 := hstage3.frame
  obtain ⟨rep4, ss4, hrun4, _, _, hstage4⟩ := importSecrets_fills subj rep3
    (s := ss3.db) hdoc hseal hids.inj (by rw [hdb3, hdb2, hdb1]; exact hids.secrets) hstage3.alive rfl
  have hdb4 := hstage4.frame
  refine ⟨rep4, ss4, bind_ok.2 ⟨_, _, hrun1, bind_ok.2 ⟨_, _, hrun2, bind_ok.2 ⟨_, _, hrun3, hrun4⟩⟩⟩,
    hstage4.alive, idx, idx', ni, nc, ng, hstage1.filled.made, hstage2.filled.made,
    hstage3.filled.made, ?_, ?_, ?_, hidx, hidx', ?_⟩
  · rw [hdb4, hdb3, hdb2]
    exact hstage1.filled.rows
  · rw [hdb4, hdb3]
    exact hstage2.filled.rows.trans (by rw [hdb1])
  · rw [hdb4]
    exact hstage3.filled.rows.trans (by rw [hdb2, hdb1])
  · rw [hdb4, hdb3, hdb2, hdb1]

end Lcm.Transfer
