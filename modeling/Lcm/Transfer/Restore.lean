import Lcm.Transfer.Invariants

/-!
# What an import does to the certificates

The issuers, grants and secrets of a document do not touch the certificates (`Aside`). A
certificate of the document is written over the stored one with its serial, or inserted under a
new id; either way it gets the document's status.

* `Imported`: how the database after an import relates to the one before.
* `importTx_ok`: every import that commits is one.
* `quiet_exportBackup`: an export only reads.
-/

namespace Lcm.Transfer

open Db Svc List Tx Sql

variable {P : Platform}

/-! ## Issuers, grants and secrets -/

/-- Nothing but issuers, grants and secrets has changed. -/
def Aside (s s' : Database) : Prop :=
  ∃ issuers grants secrets, s' = { s with issuers, grants, secrets }

variable {α : Type} {rows : List IssuedCertificate} {dc : DocCertificate} {row : IssuedCertificate}
  {tbl : Table IssuedCertificate.id} {ss ss' : Session Database} {subj : Subjects} {rep : Report}

theorem frame_importIssuers (subj : Subjects) (doc : Document) (mode : String) (rep : Report) :
    Keeps (fun s s' => s' = { s with issuers := s'.issuers })
      (importIssuers P subj doc mode rep) := by
  refine Keeps.of_holds (fun _ => rfl) fun s₀ => holds_importIssuers ?_ ?_ rep
  · intro _ s t h
    rw [h]
  · intro s t _ h
    rw [h]

theorem frame_importGrants (subj : Subjects) (doc : Document) (issuers certs : Index)
    (rep : Report) : Keeps (fun s s' => s' = { s with grants := s'.grants })
      (importGrants P subj doc issuers certs rep) := by
  refine Keeps.of_holds (fun _ => rfl) fun s₀ => holds_importGrants ?_ issuers certs rep
  intro s t h
  show { s with grants := t } = ({ s₀ with grants := t } : Database)
  rw [h]

theorem frame_importSecrets (subj : Subjects) (doc : Document) (mode : String) (rep : Report) :
    Keeps (fun s s' => s' = { s with secrets := s'.secrets })
      (importSecrets P subj doc mode rep) := by
  refine Keeps.of_holds (fun _ => rfl) fun s₀ => holds_importSecrets ?_ ?_ rep
  · intro _ s t h
    rw [h]
  · intro s t _ h
    rw [h]

/-! ## The statements on certificates -/

section Statements

variable {e : Env} {ss ss' : Session Database} {t : Id} {f : CertificateFilter}

theorem insertOr_ok {m : Sql Unit} {created skipped r : α}
    (h : insertOr m created skipped e ss = (.ok r, ss')) :
    (r = created ∧ m e ss = (.ok (), ss')) ∨ (r = skipped ∧ ∃ err, m e ss = (.error err, ss')) := by
  obtain ⟨x, ss1, hm, h⟩ := bind_ok.1 h
  rw [attempt_ok] at hm
  cases x with
  | ok u =>
    obtain ⟨rfl, rfl⟩ := pure_ok.1 h
    exact .inl ⟨rfl, hm⟩
  | error err =>
    change (if err.isConflict then pure skipped else fail err : Sql α) e ss1 = _ at h
    split at h
    · obtain ⟨rfl, rfl⟩ := pure_ok.1 h
      exact .inr ⟨rfl, err, hm⟩
    · exact absurd h fail_ok

theorem insertCertificate_error {c : IssuedCertificate} {err : Err}
    (h : insertCertificate c e ss = (.error err, ss')) : ss'.db = ss.db := by
  change checked _ _ e ss = _ at h
  unfold checked at h
  split at h
  · exact stmt_error h
  · exact stmt_error h

theorem listCertificates_ok (h : listCertificates t f e ss = (.ok rows, ss')) :
    ss' = ss ∧ ∀ c ∈ rows, c ∈ ss.db.certificates.rows ∧ c.tenantID = t := by
  obtain ⟨-, hrows, rfl⟩ := query_ok.1 h
  refine ⟨rfl, fun c hc => ?_⟩
  cases hrows
  have hmem : c ∈ ss'.db.certificates.rows.filter fun c => c.tenantID == t && Shown f c :=
    (perm_insertionSort _ _).mem_iff.1 (mem_of_mem_take hc)
  rw [mem_filter] at hmem
  simp only [Bool.and_eq_true, beq_iff_eq] at hmem
  exact ⟨hmem.1, hmem.2.1⟩

theorem pageCertificates_ok {pages : Nat} {out : List IssuedCertificate}
    (hout : ∀ c ∈ out, c ∈ ss.db.certificates.rows ∧ c.tenantID = t)
    (h : pageCertificates (listCertificates t) pages f out e ss = (.ok rows, ss')) :
    ss' = ss ∧ ∀ c ∈ rows, c ∈ ss.db.certificates.rows ∧ c.tenantID = t := by
  induction pages generalizing f out with
  | zero =>
    obtain ⟨rfl, rfl⟩ := pure_ok.1 h
    exact ⟨rfl, hout⟩
  | succ pages ih =>
    obtain ⟨batch, ss1, hlist, hnext⟩ := bind_ok.1 h
    obtain ⟨rfl, hbatch⟩ := listCertificates_ok hlist
    have hout' : ∀ c ∈ out ++ batch, c ∈ ss1.db.certificates.rows ∧ c.tenantID = t := by
      intro c hc
      rcases mem_append.1 hc with hc | hc
      · exact hout c hc
      · exact hbatch c hc
    split at hnext
    · obtain ⟨rfl, rfl⟩ := pure_ok.1 hnext
      exact ⟨rfl, hout'⟩
    · exact ih hout' hnext

end Statements

/-! ## The certificates of a document -/

/-- The row once a certificate of a document has been written over it. -/
def overwritten (old : IssuedCertificate) (status : CertStatus) (chainPEM : String)
    (updatedBy : Option String) : IssuedCertificate :=
  { old with status, chainPEM, updatedBy }

/-- Where a certificate comes from that is stored after an import into tenant `t`. -/
inductive Restored (t : Id) (doc : Document) (mode : String) (s : Database)
    (c : IssuedCertificate) : Prop where
  /-- it was stored before; a certificate of the document may have replaced its status, chain
  and last author -/
  | stored (old : IssuedCertificate) (hold : old ∈ s.certificates.rows)
      (status : CertStatus) (chainPEM : String) (updatedBy : Option String)
      (hsame : c = overwritten old status chainPEM updatedBy)
      (hstatus : status = old.status ∨ old.tenantID = t ∧ mode ≠ "skip" ∧
        ∃ dc ∈ doc.certificates, dc.serial = old.serial ∧ dc.status = status)
  /-- it is new: the tenant had no certificate with its serial -/
  | created (hnew : ∀ o ∈ s.certificates.rows, o.id ≠ c.id ∧ (o.tenantID = t → o.serial ≠ c.serial))
      (htenant : c.tenantID = t) (hkey : c.keySealed = []) (hlink : c.supersededBy = none)
      (hkind : c.kind.isSome)
      (hdoc : ∃ dc ∈ doc.certificates, dc.serial = c.serial ∧ dc.status = c.status)

/-- How an import of the document into tenant `t` has changed the database. -/
structure Imported (t : Id) (doc : Document) (mode : String) (s s' : Database) : Prop where
  revocations : s'.revocations = s.revocations
  requests : s'.requests = s.requests
  jobs : s'.jobs = s.jobs
  /-- no certificate is lost -/
  kept : ∀ c ∈ s.certificates.rows, ∃ c' ∈ s'.certificates.rows,
    c'.id = c.id ∧ c'.tenantID = c.tenantID ∧ c'.serial = c.serial
  rows : ∀ c ∈ s'.certificates.rows, Restored t doc mode s c
  /-- new certificates come last -/
  order : s.certificates.keys <+: s'.certificates.keys

/-- The ids of the certificates are those of before and ids that have been drawn. -/
def DrawsIds (e : Env) (s s' : Database) : Prop :=
  ∀ c ∈ s'.certificates.rows, (∃ o ∈ s.certificates.rows, o.id = c.id) ∨ ∃ k, c.id = e.newID k

/-- Every entry of the index is a stored certificate of the tenant with its serial. -/
def Indexes (t : Id) (idx : Index) (s : Database) : Prop :=
  ∀ x ∈ idx, ∃ c ∈ s.certificates.rows, c.id = x.2 ∧ c.tenantID = t ∧ c.serial = x.1

/-- What the loop over the certificates of a document keeps. -/
structure Restoring (e : Env) (t : Id) (doc : Document) (mode : String) (s : Database)
    (idx : Index) (s' : Database) : Prop where
  imported : Imported t doc mode s s'
  drawn : DrawsIds e s s'
  indexes : Indexes t idx s'

section Certificates

variable {e : Env} {t : Id} {doc : Document} {mode : String} {s s₁ s₂ : Database}
  {idx issuers : Index}

theorem Imported.refl (t : Id) (doc : Document) (mode : String) (s : Database) :
    Imported t doc mode s s :=
  ⟨rfl, rfl, rfl, fun c hc => ⟨c, hc, rfl, rfl, rfl⟩, fun c hc => .stored c hc _ _ _ rfl (.inl rfl),
    prefix_rfl⟩

theorem Imported.aside (h : Imported t doc mode s s₁) (ha : Aside s₁ s₂) :
    Imported t doc mode s s₂ := by
  obtain ⟨i, g, k, rfl⟩ := ha
  exact ⟨h.revocations, h.requests, h.jobs, h.kept, h.rows, h.order⟩

theorem Imported.overwrite (h : Imported t doc mode s s₁) (hmode : mode ≠ "skip")
    (hdc : dc ∈ doc.certificates) {id : Id} (hrow : s₁.certificate? t id = some row)
    (hserial : row.serial = dc.serial) (by_ : Option String) :
    let new := overwritten row dc.status dc.chainPEM by_
    Imported t doc mode s (s₁.mapCertificate id new.write new.write_id) := by
  intro new
  obtain ⟨hmem, hid, ht⟩ := Database.certificate?_eq_some.1 hrow
  refine ⟨h.revocations, h.requests, h.jobs, ?_, ?_, ?_⟩
  · intro c hc
    obtain ⟨c', hc', heq⟩ := h.kept c hc
    refine ⟨if c'.id = id then new.write c' else c', mem_map_of_mem hc', ?_⟩
    split
    · exact heq
    · exact heq
  · intro c hc
    obtain ⟨c1, hc1, rfl⟩ := mem_map.1 hc
    by_cases hc1id : c1.id = id
    · -- the row that is written over
      obtain rfl := s₁.certificates.eq_of_key_eq hc1 hmem (hc1id.trans hid.symm)
      simp only [hc1id, if_true]
      cases h.rows c1 hc1 with
      | stored old hold status chainPEM updatedBy hsame hstatus =>
        subst hsame
        exact .stored old hold dc.status dc.chainPEM by_ rfl
          (.inr ⟨ht, hmode, dc, hdc, hserial.symm, rfl⟩)
      | created hnew htenant hkey hlink hkind hdoc =>
        exact .created hnew htenant hkey hlink hkind ⟨dc, hdc, hserial.symm, rfl⟩
    · simp only [hc1id, if_false]
      exact h.rows c1 hc1
  · unfold Database.mapCertificate
    rw [Table.keys_update]
    exact h.order

theorem Imported.insert (h : Imported t doc mode s s₁) (hdc : dc ∈ doc.certificates)
    (hins : s₁.certificates.insert? row = some tbl) (ht : row.tenantID = t)
    (hserial : row.serial = dc.serial) (hstatus : row.status = dc.status)
    (hkey : row.keySealed = []) (hlink : row.supersededBy = none) (hkind : row.kind.isSome)
    (hnew : ∀ o ∈ s₁.certificates.rows, o.tenantID = row.tenantID → o.serial ≠ row.serial) :
    Imported t doc mode s { s₁ with certificates := tbl } := by
  obtain ⟨hfresh, hrows⟩ := Table.insert?_eq_some hins
  refine ⟨h.revocations, h.requests, h.jobs, ?_, ?_, ?_⟩
  · intro c hc
    obtain ⟨c', hc', heq⟩ := h.kept c hc
    refine ⟨c', ?_, heq⟩
    show c' ∈ tbl.rows
    rw [hrows]
    exact mem_append_left _ hc'
  · intro c hc
    change c ∈ tbl.rows at hc
    rw [hrows] at hc
    rcases mem_append.1 hc with hc | hc
    · exact h.rows c hc
    obtain rfl := mem_singleton.1 hc
    refine .created ?_ ht hkey hlink hkind ⟨dc, hdc, hserial.symm, hstatus.symm⟩
    intro o ho
    -- the old row is still stored, so its id and its serial are taken
    obtain ⟨o', ho', hid, hten, hser⟩ := h.kept o ho
    constructor
    · intro heq
      exact Table.get?_eq_none_iff.1 hfresh o' ho' (hid.trans heq)
    · intro hot hoser
      exact hnew o' ho' (hten.trans (hot.trans ht.symm)) (hser.trans hoser)
  · exact h.order.trans ⟨_, (Table.keys_insert hins).symm⟩

theorem DrawsIds.refl (e : Env) (s : Database) : DrawsIds e s s :=
  fun c hc => .inl ⟨c, hc, rfl⟩

theorem DrawsIds.aside (h : DrawsIds e s s₁) (ha : Aside s₁ s₂) : DrawsIds e s s₂ := by
  obtain ⟨i, g, k, rfl⟩ := ha
  exact h

theorem DrawsIds.overwrite (h : DrawsIds e s s₁) (id : Id) (new : IssuedCertificate) :
    DrawsIds e s (s₁.mapCertificate id new.write new.write_id) := by
  intro c hc
  obtain ⟨c1, hc1, rfl⟩ := mem_map.1 hc
  have hid : (if c1.id = id then new.write c1 else c1).id = c1.id := by
    split <;> rfl
  rw [hid]
  exact h c1 hc1

theorem DrawsIds.insert (h : DrawsIds e s s₁) {k : Nat} (hid : row.id = e.newID k)
    (hins : s₁.certificates.insert? row = some tbl) :
    DrawsIds e s { s₁ with certificates := tbl } := by
  intro c hc
  change c ∈ tbl.rows at hc
  rw [(Table.insert?_eq_some hins).2] at hc
  rcases mem_append.1 hc with hc | hc
  · exact h c hc
  · obtain rfl := mem_singleton.1 hc
    exact .inr ⟨k, hid⟩

theorem Indexes.overwrite (h : Indexes t idx s₁) (id : Id) (new : IssuedCertificate) :
    Indexes t idx (s₁.mapCertificate id new.write new.write_id) := by
  intro x hx
  obtain ⟨c, hc, heq⟩ := h x hx
  refine ⟨if c.id = id then new.write c else c, mem_map_of_mem hc, ?_⟩
  split
  · exact heq
  · exact heq

theorem Indexes.insert (h : Indexes t idx s₁) (ht : row.tenantID = t)
    (hins : s₁.certificates.insert? row = some tbl) :
    Indexes t ((row.serial, row.id) :: idx) { s₁ with certificates := tbl } := by
  have hrows := (Table.insert?_eq_some hins).2
  intro x hx
  show ∃ c ∈ tbl.rows, _
  rw [hrows]
  rcases mem_cons.1 hx with rfl | hx
  · exact ⟨row, mem_append_right _ (mem_singleton.2 rfl), rfl, ht, rfl⟩
  · obtain ⟨c, hc, heq⟩ := h x hx
    exact ⟨c, mem_append_left _ hc, heq⟩

/-- One certificate of the document: nothing happens, or it is written over the stored one with its
serial, or it is inserted. -/
theorem importCertificate_cases {acc acc' : Index × Report}
    (h : importCertificate P subj mode issuers acc dc e ss = (.ok acc', ss')) :
    acc'.1 = acc.1 ∧ (ss'.db = ss.db ∨ mode ≠ "skip" ∧ ∃ id row,
        acc.1.lookup dc.serial = some id ∧ ss.db.certificate? subj.tenantID id = some row ∧
          ss'.db = ss.db.mapCertificate row.id
            (overwritten row dc.status dc.chainPEM (actorPtr subj)).write fun _ => rfl) ∨
      ∃ issuerID k now tbl, issuers.lookup (P.toLower dc.issuer) = some issuerID ∧
        acc.1.lookup dc.serial = none ∧ acc'.1 = (dc.serial, e.newID k) :: acc.1 ∧
        (∀ o ∈ ss.db.certificates.rows, o.tenantID = subj.tenantID → o.serial ≠ dc.serial) ∧
        ss.db.certificates.insert? ((importedRow subj issuerID (e.newID k) dc).stored now) =
          some tbl ∧ ss'.db = { ss.db with certificates := tbl } := by
  cases hissuer : issuers.lookup (P.toLower dc.issuer) with
  | none =>
    -- its issuer is not known: skipped
    simp only [importCertificate, hissuer] at h
    obtain ⟨rfl, rfl⟩ := pure_ok.1 h
    exact .inl ⟨rfl, .inl rfl⟩
  | some issuerID =>
    cases hfound : acc.1.lookup dc.serial with
    | some existingID =>
      simp only [importCertificate, hissuer, hfound] at h
      split at h
      · obtain ⟨rfl, rfl⟩ := pure_ok.1 h
        exact .inl ⟨rfl, .inl rfl⟩
      rename_i hmode
      obtain ⟨_, ss1, hover, hdone⟩ := bind_ok.1 h
      obtain ⟨rfl, rfl⟩ := pure_ok.1 hdone
      obtain ⟨row, ss2, hget, hset⟩ := bind_ok.1 hover
      obtain ⟨-, hrow, rfl⟩ := query_ok.1 hget
      exact .inl ⟨rfl, .inr ⟨hmode, existingID, row, rfl, found_eq_ok.1 hrow,
        (updateCertificateRow_ok hset).2⟩⟩
    | none =>
      -- new to the tenant
      simp only [importCertificate, hissuer, hfound] at h
      obtain ⟨id, ss1, hid, hins⟩ := bind_ok.1 h
      obtain ⟨rfl, rfl⟩ := draw_ok.1 hid
      rcases insertOr_ok hins with ⟨rfl, hdone⟩ | ⟨rfl, err, hfail⟩
      · obtain ⟨-, hnew, now, tbl, htbl, hdb⟩ := insertCertificate_ok hdone
        exact .inr ⟨issuerID, _, now, tbl, rfl, rfl, rfl, hnew, htbl, hdb⟩
      · have hdb := insertCertificate_error hfail
        exact .inl ⟨rfl, .inl hdb⟩

theorem importCertificate_ok (hdc : dc ∈ doc.certificates) {acc acc' : Index × Report}
    (hI : Restoring e subj.tenantID doc mode s acc.1 ss.db)
    (h : importCertificate P subj mode issuers acc dc e ss = (.ok acc', ss')) :
    Restoring e subj.tenantID doc mode s acc'.1 ss'.db := by
  obtain ⟨himp, hdraw, hidx⟩ := hI
  rcases importCertificate_cases h with ⟨hacc, hdb | ⟨hmode, id, row, hfound, hrow, hdb⟩⟩ |
    ⟨_, k, _, _, -, -, hacc, hnew, htbl, hdb⟩
  · rw [hacc, hdb]
    exact ⟨himp, hdraw, hidx⟩
  · obtain ⟨c, hc, hcid, -, hser⟩ := hidx _ (mem_of_lookup hfound)
    obtain ⟨hmem, hid, -⟩ := Database.certificate?_eq_some.1 hrow
    obtain rfl := ss.db.certificates.eq_of_key_eq hc hmem (hcid.trans hid.symm)
    rw [hacc, hdb, hid]
    exact ⟨himp.overwrite hmode hdc hrow hser (actorPtr subj), hdraw.overwrite _ _,
      hidx.overwrite _ _⟩
  rw [hacc, hdb]
  exact ⟨himp.insert hdc htbl rfl rfl rfl rfl rfl rfl hnew, hdraw.insert rfl htbl,
    hidx.insert rfl htbl⟩

theorem indexes_foldl {t : Id} {s : Database} {idx : Index}
    (hrows : ∀ c ∈ rows, c ∈ s.certificates.rows ∧ c.tenantID = t) (hidx : Indexes t idx s) :
    Indexes t (rows.foldl (fun idx c => (c.serial, c.id) :: idx) idx) s := by
  induction rows generalizing idx with
  | nil => exact hidx
  | cons c rows ih =>
    refine ih (fun d hd => hrows d (mem_cons_of_mem c hd)) ?_
    intro x hx
    rcases mem_cons.1 hx with rfl | hx
    · obtain ⟨hc, ht⟩ := hrows c mem_cons_self
      exact ⟨c, hc, rfl, ht, rfl⟩
    · exact hidx x hx

theorem importCertificates_ok {r : Index × Report} (himp : Imported subj.tenantID doc mode s ss.db)
    (hdraw : DrawsIds e s ss.db)
    (h : importCertificates P subj doc mode issuers rep e ss = (.ok r, ss')) :
    Imported subj.tenantID doc mode s ss'.db ∧ DrawsIds e s ss'.db := by
  obtain ⟨existing, ss1, hlist, hloop⟩ := bind_ok.1 h
  obtain ⟨rfl, hexisting⟩ := pageCertificates_ok (by simp) hlist
  have hidx : Indexes subj.tenantID
      (existing.foldl (fun idx c => (c.serial, c.id) :: idx) []) ss1.db :=
    indexes_foldl hexisting fun _ hx => by cases hx
  have hend := foldlM_ok
    (I := fun acc ss => Restoring e subj.tenantID doc mode s acc.1 ss.db)
    (fun dc hdc acc ss acc' ss' hI hturn => importCertificate_ok hdc hI hturn)
    ⟨himp, hdraw, hidx⟩ hloop
  exact ⟨hend.imported, hend.drawn⟩

end Certificates

theorem importTx_ok {doc : Document} {mode : String} {e : Env}
    (h : importTx P subj doc mode e ss = (.ok rep, ss')) :
    Imported subj.tenantID doc mode ss.db ss'.db ∧ DrawsIds e ss.db ss'.db := by
  obtain ⟨⟨issuers, rep1⟩, ss1, hissuers, h⟩ := bind_ok.1 h
  obtain ⟨⟨certs, rep2⟩, ss2, hcerts, h⟩ := bind_ok.1 h
  obtain ⟨rep3, ss3, hgrants, hsecrets⟩ := bind_ok.1 h
  have hbefore : Aside ss.db ss1.db :=
    ⟨_, _, _, (frame_importIssuers subj doc mode .empty).run hissuers⟩
  have hafter : Aside ss2.db ss'.db := by
    refine ⟨ss'.db.issuers, ss3.db.grants, ss'.db.secrets, ?_⟩
    rw [(frame_importSecrets subj doc mode rep3).run hsecrets,
      (frame_importGrants subj doc issuers certs rep2).run hgrants]
  obtain ⟨himp, hdraw⟩ := importCertificates_ok
    ((Imported.refl subj.tenantID doc mode ss.db).aside hbefore)
    ((DrawsIds.refl e ss.db).aside hbefore) hcerts
  exact ⟨himp.aside hafter, hdraw.aside hafter⟩

/-! ## Export -/

theorem quiet_pageCertificates (tenantID : Id) (pages : Nat) (f : CertificateFilter)
    (out : List IssuedCertificate) :
    Quiet (pageCertificates (fun f => fetch (listCertificates tenantID f)) pages f out) := by
  induction pages generalizing f out with
  | zero => exact only_pure _
  | succ pages ih =>
    refine only_bind (quiet_fetch (readOnly_query _)) fun batch => ?_
    exact only_ite (only_pure _) (ih _ _)

theorem quiet_exportGrants (tenantID : Id) (type : ResourceType) (refs : List (Id × String)) :
    Quiet (exportGrants tenantID type refs) := by
  induction refs with
  | nil => exact only_pure _
  | cons x rest ih =>
    refine only_bind (quiet_fetch (readOnly_grantsOnResource _ _ _)) fun grants => ?_
    exact only_bind ih fun more => only_pure _

theorem quiet_exportBackup (subj : Subjects) (includeCredentials : Bool) :
    Quiet (exportBackup P subj includeCredentials) := by
  refine only_bind quiet_now fun now => ?_
  refine only_bind (quiet_fetch (readOnly_query _)) fun issuers => ?_
  refine only_bind (only_ofExcept _) fun docIssuers => ?_
  refine only_bind (quiet_pageCertificates _ _ _ _) fun certs => ?_
  refine only_bind (quiet_exportGrants _ _ _) fun onIssuers => ?_
  refine only_bind (quiet_exportGrants _ _ _) fun onCerts => ?_
  refine only_bind ?_ fun secrets => only_bind (quiet_emit _) fun _ => only_pure _
  unfold exportSecrets
  exact only_ite (only_bind (quiet_fetch (readOnly_query _)) fun _ => only_ofExcept _)
    (only_pure _)

end Lcm.Transfer
