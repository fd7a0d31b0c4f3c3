import Lcm.Transfer.Backup

/-!
# What an import keeps

An invariant of the database survives an import if it survives the statements the import is made
of. The lemmas `holds_import*` and `leads_import*` take the invariant through the parts of the transaction; what has
to be shown is about single statements, with what the importer knows of the row it writes: the
document's entry, the index of names it has built so far and the row it has read.
-/

namespace Lcm.Transfer

open Db Svc Tx Sql

variable {P : Platform} {I : Database → Prop} {s : Database}

theorem holds_insertOr {α : Type} {m : Sql Unit} {created skipped : α} {Q : α → Prop}
    (hm : Holds I (fun _ => Q created) m) (hskipped : Q skipped) :
    Holds I Q (insertOr m created skipped) := by
  refine Holds.bind (Holds.attempt hm) fun r hr => ?_
  cases r with
  | ok u => exact Holds.pure (hr u rfl)
  | error e => exact Holds.ite (fun _ => Holds.pure hskipped) fun _ => Holds.fail e

/-! ## The index of names -/

theorem mem_of_lookup {idx : Index} {k : String} {id : Id} (h : idx.lookup k = some id) :
    (k, id) ∈ idx := by
  obtain ⟨l, r, rfl, -⟩ := List.lookup_eq_some_iff.1 h
  simp

variable (P) in
/-- The stored issuers, as `Export` and `Import` list them. -/
def issuerListing (s : Database) (t : Id) : List Issuer :=
  (sortRows (NameBefore P Issuer.name Issuer.id)
    (s.issuers.rows.filter fun i => i.tenantID == t &&
      P.sqlLess (P.sqlLower "") (P.sqlLower i.name))).take maxIssuers

theorem mem_issuerListing {t : Id} {i : Issuer} (h : i ∈ issuerListing P s t) :
    i ∈ s.issuers.rows ∧ i.tenantID = t := by
  have hmem : i ∈ s.issuers.rows.filter fun i => i.tenantID == t &&
      P.sqlLess (P.sqlLower "") (P.sqlLower i.name) :=
    (List.perm_insertionSort _ _).mem_iff.1 (List.mem_of_mem_take h)
  rw [List.mem_filter] at hmem
  simp only [Bool.and_eq_true, beq_iff_eq] at hmem
  exact ⟨hmem.1, hmem.2.1⟩

variable (P) in
/-- The stored issuers by name. -/
def issuerIndex (s : Database) (t : Id) : Index :=
  (issuerListing P s t).foldl (fun idx i => (P.toLower i.name, i.id) :: idx) []

variable (P) in
/-- Every entry of the index is a stored issuer of the tenant with its name. -/
def IndexesIssuers (t : Id) (idx : Index) (s : Database) : Prop :=
  ∀ x ∈ idx, ∃ i ∈ s.issuers.rows, i.tenantID = t ∧ i.id = x.2 ∧ P.toLower i.name = x.1

theorem indexesIssuers_foldl {t : Id} {rows : List Issuer} {idx : Index}
    (hrows : ∀ i ∈ rows, i ∈ s.issuers.rows ∧ i.tenantID = t) (hidx : IndexesIssuers P t idx s) :
    IndexesIssuers P t (rows.foldl (fun idx i => (P.toLower i.name, i.id) :: idx) idx) s := by
  induction rows generalizing idx with
  | nil => exact hidx
  | cons i rows ih =>
    refine ih (fun j hj => hrows j (List.mem_cons_of_mem i hj)) ?_
    intro x hx
    rcases List.mem_cons.1 hx with rfl | hx
    · obtain ⟨hi, ht⟩ := hrows i List.mem_cons_self
      exact ⟨i, hi, ht, rfl, rfl⟩
    · exact hidx x hx

theorem indexesIssuers_index (s : Database) (t : Id) :
    IndexesIssuers P t (issuerIndex P s t) s :=
  indexesIssuers_foldl (fun _ hi => mem_issuerListing hi) fun _ hx => by cases hx

/-! ## The parts of an import -/

section Parts

variable {subj : Subjects} {doc : Document} {mode : String} {pre : Database → Prop}
  {R : Index → Prop}

theorem leads_importIssuers {W : Id → Issuer → Prop} (rep : Report)
    (hpre : ∀ s, pre s → I s ∧ R (issuerIndex P s subj.tenantID))
    (hget : ∀ id, Holds I (W id) (getIssuer subj.tenantID id))
    (hupdate : ∀ idx di id row blob shown, R idx → di ∈ doc.issuers → mode ≠ "skip" →
      idx.lookup (P.toLower di.name) = some id → W id row →
      Holds I (fun _ => True) (updateIssuer P { row with
        type := di.type, trustDomain := di.trustDomain, isDefault := di.isDefault,
        settingsSealed := blob, settingsPublic := shown, updatedBy := actorPtr subj }))
    (hinsert : ∀ idx di id blob shown, R idx → di ∈ doc.issuers →
      idx.lookup (P.toLower di.name) = none →
      Holds I (fun _ => R ((P.toLower di.name, id) :: idx)) (insertIssuer P ⟨id,
        subj.tenantID, di.name, di.type, di.trustDomain, di.isDefault, none, "", "", "", shown,
        blob, true, actorPtr subj, actorPtr subj⟩)) :
    Leads pre I (fun acc => R acc.1) (importIssuers P subj doc mode rep) := by
  refine Leads.bind (Q := fun existing => R (existing.foldl
    (fun idx i => (P.toLower i.name, i.id) :: idx) [])) ?_ fun existing hidx => ?_
  · refine Holds.leads_query (fun s hs => (hpre s hs).1) fun s existing hs hlist => ?_
    cases hlist
    exact (hpre s hs).2
  refine Holds.foldlM (R := fun acc : Index × Report => R acc.1) ?_ hidx
  intro di hdi acc hacc
  unfold importIssuer
  split
  · next id hid =>
    refine Holds.ite (fun _ => Holds.pure hacc) fun hmode => ?_
    refine Holds.bind (hget id) fun row hrow => ?_
    refine Holds.bind (holds_draw_any _) fun nonce _ => ?_
    refine Holds.bind (holds_ofExcept_any _) fun ⟨blob, shown⟩ _ => ?_
    refine Holds.bind (hupdate acc.1 di id row blob shown hacc hdi hmode hid hrow) ?_
    exact fun _ _ => Holds.pure hacc
  rename_i hid
  refine Holds.bind (holds_draw_any _) fun id _ => ?_
  refine Holds.bind (holds_draw_any _) fun nonce _ => ?_
  refine Holds.bind (holds_ofExcept_any _) fun ⟨blob, shown⟩ _ => ?_
  exact holds_insertOr (hinsert acc.1 di id blob shown hacc hdi hid) hacc

/-- The issuers, for an invariant that survives what is written to their table: in skip mode rows
are only added. -/
theorem holds_importIssuers (hwrite : mode ≠ "skip" → ∀ s t, I s → I { s with issuers := t })
    (hadd : ∀ s t, s.issuers.rows <+: t.rows → I s → I { s with issuers := t }) (rep : Report) :
    Holds I (fun _ => True) (importIssuers P subj doc mode rep) := by
  refine Leads.holds (leads_importIssuers (R := fun _ => True) (W := fun _ _ => True) rep
    (fun _ hI => ⟨hI, trivial⟩) (fun _ => holds_query_any _) ?_ ?_)
  · intro idx di id row blob shown _ _ hmode _ _
    exact holds_updateIssuer fun s _ hI _ _ _ _ => hwrite hmode s _ hI
  · intro idx di id blob shown _ _ _
    exact holds_checked fun _ => holds_insertRow_any hadd

theorem holds_pageCertificates (t : Id) (pages : Nat) (f : CertificateFilter)
    (out : List IssuedCertificate) : Holds I (fun _ => True)
      (pageCertificates (listCertificates t) pages f out) := by
  induction pages generalizing f out with
  | zero => exact Holds.pure trivial
  | succ pages ih =>
    refine Holds.bind (holds_query_any _) fun batch _ => ?_
    exact Holds.ite (fun _ => Holds.pure trivial) fun _ => ih _ _

theorem holds_importCertificates {issuers : Index} (rep : Report)
    (hwrite : mode ≠ "skip" → ∀ s id (c : IssuedCertificate), I s →
      I (s.mapCertificate id c.write c.write_id))
    (hinsert : ∀ dc issuerID id, dc ∈ doc.certificates →
      issuers.lookup (P.toLower dc.issuer) = some issuerID →
      Holds I (fun _ => True) (insertCertificate (importedRow subj issuerID id dc))) :
    Holds I (fun _ => True) (importCertificates P subj doc mode issuers rep) := by
  refine Holds.bind (holds_pageCertificates _ _ _ _) fun existing _ => ?_
  refine Holds.foldlM (R := fun _ => True) ?_ trivial
  intro dc hdc acc _
  unfold importCertificate
  split
  · exact Holds.pure trivial
  rename_i issuerID hissuer
  split
  · refine Holds.ite (fun _ => Holds.pure trivial) fun hmode => ?_
    refine Holds.bind (Q := fun _ => True) ?_ fun _ _ => Holds.pure trivial
    refine Holds.bind (holds_query_any _) fun row _ => ?_
    exact holds_updateRow fun s hI => hwrite hmode s _ _ hI
  · refine Holds.bind (holds_draw_any _) fun id _ => ?_
    exact holds_insertOr (hinsert dc issuerID id hdc hissuer) trivial

theorem holds_importGrants (hgrants : ∀ s t, I s → I { s with grants := t })
    (issuers certs : Index) (rep : Report) :
    Holds I (fun _ => True) (importGrants P subj doc issuers certs rep) := by
  refine Holds.foldlM (R := fun _ => True) ?_ trivial
  intro dp _ rep _
  unfold importGrant
  split
  · exact Holds.pure trivial
  · refine Holds.bind (holds_draw_any _) fun id _ => ?_
    exact Holds.bind (holds_upsertGrant hgrants _) fun _ _ => Holds.pure trivial

theorem holds_importSecrets (hwrite : mode ≠ "skip" → ∀ s t, I s → I { s with secrets := t })
    (hadd : ∀ s t, s.secrets.rows <+: t.rows → I s → I { s with secrets := t }) (rep : Report) :
    Holds I (fun _ => True) (importSecrets P subj doc mode rep) := by
  refine Holds.foldlM (R := fun _ => True) ?_ trivial
  intro ds _ rep _
  refine Holds.bind (Holds.attempt (holds_query_any _)) fun r _ => ?_
  unfold importSecretOver
  split
  · refine Holds.ite (fun _ => Holds.pure trivial) fun hmode => ?_
    refine Holds.bind (holds_draw_any _) fun nonce _ => ?_
    refine Holds.bind (holds_ofExcept_any _) fun blob _ => ?_
    refine Holds.bind (Q := fun _ => True) ?_ fun _ _ => Holds.pure trivial
    refine Holds.stmt fun s s' a hI h => ?_
    split at h
    · cases h
    split at h
    · cases h
    split at h
    · cases h
    · cases h
      exact ⟨hwrite hmode _ _ hI, trivial⟩
  · refine Holds.bind (holds_draw_any _) fun id _ => ?_
    refine Holds.bind (holds_draw_any _) fun nonce _ => ?_
    refine Holds.bind (holds_ofExcept_any _) fun blob _ => ?_
    exact holds_insertOr (holds_checked fun _ => holds_insertRow_any hadd) trivial
  · exact Holds.fail _

theorem leads_importTx
    (hissuers : Leads pre I (fun acc => R acc.1) (importIssuers P subj doc mode .empty))
    (hcertificates : ∀ idx rep, R idx →
      Holds I (fun _ => True) (importCertificates P subj doc mode idx rep))
    (hgrants : ∀ s t, I s → I { s with grants := t })
    (hsecrets : ∀ s t, I s → I { s with secrets := t }) :
    Leads pre I (fun _ => True) (importTx P subj doc mode) := by
  refine Leads.bind hissuers fun ⟨idx, rep⟩ hidx => ?_
  refine Holds.bind (hcertificates idx rep hidx) fun ⟨certs, rep⟩ _ => ?_
  refine Holds.bind (holds_importGrants hgrants idx certs rep) fun rep _ => ?_
  exact holds_importSecrets (fun _ => hsecrets) (fun s t _ => hsecrets s t) rep

theorem holds_importTx_of_issuers {W : Issuer → Prop}
    (hframe : ∀ s s' : Database, s'.issuers = s.issuers → I s → I s')
    (hrow : ∀ s, I s → ∀ i ∈ s.issuers.rows, W i)
    (hupdate : ∀ di row blob shown, di ∈ doc.issuers → W row →
      Holds I (fun _ => True) (updateIssuer P { row with
        type := di.type, trustDomain := di.trustDomain, isDefault := di.isDefault,
        settingsSealed := blob, settingsPublic := shown, updatedBy := actorPtr subj }))
    (hinsert : ∀ di id blob shown, di ∈ doc.issuers →
      Holds I (fun _ => True) (insertIssuer P ⟨id, subj.tenantID, di.name, di.type,
        di.trustDomain, di.isDefault, none, "", "", "", shown, blob, true, actorPtr subj,
        actorPtr subj⟩)) :
    Holds I (fun _ => True) (importTx P subj doc mode) := by
  refine Leads.holds (leads_importTx (R := fun _ => True) ?_ ?_ (fun s _ => hframe s _ rfl)
    fun s _ => hframe s _ rfl)
  · refine leads_importIssuers (R := fun _ => True) (W := fun _ row => W row) .empty
      (fun _ hI => ⟨hI, trivial⟩) ?_ ?_ ?_
    · intro id
      refine Holds.query fun s row hI hget => ?_
      have hmem := (Option.filter_eq_some_iff.1 (found_eq_ok.1 hget)).1
      exact hrow s hI row (Table.get?_mem hmem)
    · intro idx di id row blob shown _ hdi _ _ hW
      exact hupdate di row blob shown hdi hW
    · intro idx di id blob shown _ hdi _
      exact hinsert di id blob shown hdi
  · intro idx rep _
    refine holds_importCertificates rep (fun _ s _ _ => hframe s _ rfl) fun dc issuerID id _ _ => ?_
    exact holds_insertCertificate_any (fun s _ _ => hframe s _ rfl) _

theorem holds_importTx_cas {table : Table CA.id} :
    Holds (fun s => s.cas = table) (fun _ => True) (importTx P subj doc mode) := by
  have hissuers : Holds (fun s => s.cas = table) (fun _ => True)
      (importIssuers P subj doc mode .empty) :=
    holds_importIssuers (fun _ _ _ h => h) (fun _ _ _ h => h) .empty
  refine Leads.holds (leads_importTx (R := fun _ => True) hissuers ?_ (fun _ _ h => h)
    fun _ _ h => h)
  intro idx rep _
  refine holds_importCertificates rep (fun _ _ _ _ h => h) fun dc issuerID id _ _ => ?_
  exact holds_insertCertificate_any (fun _ _ _ h => h) _

end Parts

end Lcm.Transfer
