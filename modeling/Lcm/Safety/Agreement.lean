import Lcm.Safety.Revocation

/-!
# Do the status and the revocation records agree?

A certificate's row has a status, and the revocations table, from which the CRL is made, has a
row for each certificate that `Revoke` has revoked. An import of a backup writes the status of
the document and no revocation.

* `status_agrees`: in every sequence of calls in which the statuses an import writes agree with
  what is on record, a certificate is stored as revoked just when a revocation of it is on
  record.
* `status_disagrees`: without that, it is not.
-/

namespace Lcm

open Conc Db Svc Issue Transfer List Database

/-- The calls that write certificates or revocations. -/
def ledgerCall : Call → Bool
  | .issue _ _ | .renew _ _ | .revoke _ _ _ | .updateCertificate _ _ _ | .deleteCertificate _ _
  | .importACME _ _ | .importBackup _ _ _ => true
  | _ => false

/-- The tenant's certificates are stored as revoked just when they are on record. -/
def Agrees (t : Id) (s : Database) : Prop :=
  ∀ c ∈ s.certificates.rows, c.tenantID = t → (c.status = .revoked ↔ s.OnRecord t c.id)

instance (t : Id) : DecidablePred (Agrees t) := fun _ => inferInstanceAs (Decidable (∀ _ ∈ _, _))

/-- The tenant has no certificate and no revocation. -/
def NoLedger (t : Id) (s : Database) : Prop :=
  (∀ c ∈ s.certificates.rows, c.tenantID ≠ t) ∧ ∀ r ∈ s.revocations.rows, r.tenantID ≠ t

/-- No id that is drawn during the call is one that a revocation is about. -/
def IdsUnused (s : Database) (x : Turn) : Prop :=
  ∀ n k, ∀ r ∈ s.revocations.rows, r.certificateID ≠ (x.env n).newID k

/-- What a call imports: the tenant, the document and the mode. -/
def Call.imports? : Call → Option (Id × Document × String)
  | importBackup subj doc mode => some (subj.tenantID, doc, mode)
  | _ => none

/-- The statuses of the document agree with those of the tenant's certificates: one that is
written over a stored certificate is revoked just when that one is, and a certificate that the
tenant does not have is not revoked. -/
def DocumentAgrees (s : Database) (t : Id) (doc : Document) (mode : String) : Prop :=
  ∀ dc ∈ doc.certificates,
    (mode ≠ "skip" → ∀ c ∈ s.certificates.rows, c.tenantID = t → c.serial = dc.serial →
      (dc.status = .revoked ↔ c.status = .revoked)) ∧
    ((∀ c ∈ s.certificates.rows, c.tenantID = t → c.serial ≠ dc.serial) → dc.status ≠ .revoked)

/-- If the call is an import, its document agrees with the tenant's certificates. -/
def ImportAgrees (s : Database) (x : Turn) : Prop :=
  ∀ i ∈ x.call.imports?, DocumentAgrees s i.1 i.2.1 i.2.2

instance (s : Database) (t : Id) (doc : Document) (mode : String) :
    Decidable (DocumentAgrees s t doc mode) := inferInstanceAs (Decidable (∀ _ ∈ _, _))

instance (s : Database) : DecidablePred (ImportAgrees s) := fun _ => inferInstanceAs (Decidable (∀ _ ∈ _, _))

/-! ## One step -/

section Step

variable {P : Platform} {call : Call} {g : Progress} {e : Nat → Env} {s₀ s s' : Database}
variable {ev : Ev} {t : Id} {n : Nat} {f : IssuedCertificate → IssuedCertificate}

theorem Agrees.of_rows (h : Agrees t s) (hrev : s'.revocations = s.revocations)
    (hrows : ∀ c' ∈ s'.certificates.rows, ∃ c ∈ s.certificates.rows,
      c.id = c'.id ∧ c.tenantID = c'.tenantID ∧ c.status = c'.status) : Agrees t s' := by
  intro c' hc' ht
  obtain ⟨c, hc, hid, hten, hst⟩ := hrows c' hc'
  have hold := h c hc (hten.trans ht)
  unfold OnRecord
  rw [hrev, ← hst, ← hid]
  exact hold

theorem Agrees.mapCertificate (h : Agrees t s) {id : Id} {hf : ∀ c, (f c).id = c.id}
    (ht : ∀ c, (f c).tenantID = c.tenantID)
    (hst : ∀ c ∈ s.certificates.rows, c.id = id → (f c).status = c.status) :
    Agrees t (s.mapCertificate id f hf) := by
  refine h.of_rows rfl fun c' hc' => ?_
  obtain ⟨c, hc, rfl⟩ := mem_map.1 hc'
  refine ⟨c, hc, ?_⟩
  by_cases hid : c.id = id
  · simp only [hid, if_true]
    exact ⟨by rw [hf, hid], (ht c).symm, (hst c hc hid).symm⟩
  · simp [hid]

theorem Agrees.insert (h : Agrees t s) {row : IssuedCertificate} (hins : Inserted row s s')
    (hst : row.status ≠ .revoked) (hrec : ¬ s.OnRecord t row.id) : Agrees t s' := by
  obtain ⟨now, hrows⟩ := hins.rows
  intro c hc ht
  unfold OnRecord
  rw [hins.revocations]
  rw [hrows] at hc
  rcases mem_append.1 hc with hc | hc
  · exact h c hc ht
  · obtain rfl := mem_singleton.1 hc
    exact iff_of_false hst hrec

theorem Agrees.revoke (h : Agrees t s) {t1 id : Id} (hrev : Revoked t1 id s s') : Agrees t s' := by
  obtain ⟨c1, hc1⟩ := Option.isSome_iff_exists.1 hrev.existed
  obtain ⟨hmem1, hid1, hten1⟩ := certificate?_eq_some.1 hc1
  obtain ⟨r, hrt, hrid, hins⟩ := hrev.revocation
  have hrows : s'.revocations.rows = s.revocations.rows ++ [r] := (Table.insert?_eq_some hins).2
  intro c' hc' ht
  rw [hrev.certificates] at hc'
  obtain ⟨c, hc, rfl⟩ := mem_map.1 hc'
  unfold OnRecord
  rw [hrows]
  by_cases hid : c.id = id
  · -- the certificate that is revoked: both sides hold from here on
    obtain rfl := s.certificates.eq_of_key_eq hc hmem1 (hid.trans hid1.symm)
    simp only [hid, if_true] at ht ⊢
    refine iff_of_true rfl ⟨r, mem_append_right _ (mem_singleton.2 rfl), ?_, ?_⟩
    · rw [hrt, ← hten1]
      exact ht
    · rw [hrid]
      exact hid.symm
  · -- another certificate: the new revocation is not about it
    simp only [hid, if_false] at ht ⊢
    refine (h c hc ht).trans ⟨?_, ?_⟩
    · rintro ⟨q, hq, hqt, hqid⟩
      exact ⟨q, mem_append_left _ hq, hqt, hqid⟩
    rintro ⟨q, hq, hqt, hqid⟩
    rcases mem_append.1 hq with hq | hq
    · exact ⟨q, hq, hqt, hqid⟩
    · obtain rfl := mem_singleton.1 hq
      exact absurd (hqid.symm.trans hrid) hid

/-- What a call other than an import keeps while it runs alone, from database `s₀` on. -/
structure KeepsLedger (t : Id) (e : Nat → Env) (call : Call) (s₀ : Database) (g : Progress)
    (s : Database) : Prop where
  agrees : Agrees t s
  /-- the row the call works on is stored with the status it has read -/
  copy : ∀ old, g.copy = some old →
    call.target?.isSome ∧ ∃ c ∈ s.certificates.rows, c.id = old.id ∧ c.status = old.status
  drawn : ∀ id ∈ g.drawn, ∃ n, id = (e n).newID 0
  revocations : call.target?.isSome ∨ call.tenant?.isSome → s.revocations = s₀.revocations

theorem KeepsLedger.writeBack (h : KeepsLedger t e call s₀ g s) {old : IssuedCertificate}
    (hold : g.copy = some old) {hf : ∀ c, (f c).id = c.id} (ht : ∀ c, (f c).tenantID = c.tenantID)
    (hst : ∀ c, (f c).status = old.status) (hcopy : (g.next ev).copy = g.copy)
    (hdrawn : (g.next ev).drawn = g.drawn) :
    KeepsLedger t e call s₀ (g.next ev) (s.mapCertificate old.id f hf) := by
  obtain ⟨htarget, c1, hc1, hid1, hst1⟩ := h.copy old hold
  refine ⟨h.agrees.mapCertificate ht ?_, ?_, ?_, h.revocations⟩
  · -- the stored status is the one that is written back
    intro c hc hid
    obtain rfl := s.certificates.eq_of_key_eq hc hc1 (hid.trans hid1.symm)
    rw [hst, hst1]
  · intro old' hold'
    rw [hcopy, hold] at hold'
    cases hold'
    refine ⟨htarget, f c1, ?_, (hf c1).trans hid1, hst c1⟩
    exact mem_map.2 ⟨c1, hc1, by simp [hid1]⟩
  · rw [hdrawn]
    exact h.drawn

theorem KeepsLedger.copy_none (h : KeepsLedger t e call s₀ g s) (htarget : call.target? = none) :
    g.copy = none := by
  cases hc : g.copy with
  | none => rfl
  | some old =>
    have hsome := (h.copy old hc).1
    rw [htarget] at hsome
    cases hsome

theorem KeepsLedger.of_copy_none (h : KeepsLedger t e call s₀ g s) (htarget : call.target? = none)
    (hcopy : (g.next ev).copy = g.copy) (hdrawn : (g.next ev).drawn = g.drawn)
    (hagrees : Agrees t s')
    (hrev : call.target?.isSome ∨ call.tenant?.isSome → s'.revocations = s.revocations) :
    KeepsLedger t e call s₀ (g.next ev) s' := by
  refine ⟨hagrees, ?_, ?_, fun hc => (hrev hc).trans (h.revocations hc)⟩
  · intro old hold
    rw [hcopy, h.copy_none htarget] at hold
    cases hold
  · rw [hdrawn]
    exact h.drawn

theorem KeepsLedger.step (hids : IdsUnused s₀ ⟨call, e⟩) (hcall : ledgerCall call)
    (himport : ∀ subj doc mode, call ≠ .importBackup subj doc mode)
    (h : KeepsLedger t e call s₀ g s) (hhap : Happens (e n) s ev s')
    (hproto : Protocol P call g ev) : KeepsLedger t e call s₀ (g.next ev) s' := by
  obtain ⟨heff, hans⟩ := hhap
  cases wrote P heff hproto with
  | nothing =>
    refine ⟨h.agrees, ?_, ?_, h.revocations⟩
    · rcases (g.steps ev).copy with hcopy | ⟨t1, id1, c, rfl, hcopy⟩
      · rw [hcopy]
        exact h.copy
      · -- the row is read as it is stored
        rintro old ⟨⟩
        obtain ⟨hmem, -, -⟩ := certificate?_eq_some.1 (heff.2 c rfl)
        refine ⟨?_, c, hmem, rfl, rfl⟩
        rw [hproto.2.2]
        rfl
    · rcases (g.steps ev).drawn with hdrawn | ⟨id, rfl, hdrawn⟩
      · rw [hdrawn]
        exact h.drawn
      intro id' hid'
      rcases mem_append.1 hid' with hid' | hid'
      · exact h.drawn id' hid'
      · exact ⟨n, (mem_singleton.1 hid').trans hans⟩
  | @insert _ row _ hins _ hrow =>
    have htenant : call.tenant?.isSome := by
      rw [hrow.tenant]
      rfl
    have hrev := h.revocations (.inr htenant)
    -- the id has just been drawn, so no revocation is about it
    have hrec : ¬ s.OnRecord t row.id := by
      rintro ⟨r, hr, -, hrid⟩
      obtain ⟨m, hm⟩ := h.drawn row.id hrow.drawn
      rw [hrev] at hr
      exact hids m 0 r hr (hrid.trans hm)
    have hst : row.status ≠ .revoked := by simp [hrow.status]
    refine ⟨h.agrees.insert hins hst hrec, ?_, h.drawn, fun hc => hins.revocations.trans hrev⟩
    intro old hold
    obtain ⟨htarget, c, hc, heq⟩ := h.copy old hold
    obtain ⟨now, hrows⟩ := hins.rows
    refine ⟨htarget, c, ?_, heq⟩
    rw [hrows]
    exact mem_append_left _ hc
  | update hold | link hold => exact h.writeBack hold (fun _ => rfl) (fun _ => rfl) rfl rfl
  | deliver hdeliver =>
    have htarget : call.target? = none := by
      rcases hdeliver with ⟨subj, rfl, -⟩ | ⟨subj, input, row, rfl, -⟩
      · rfl
      · rfl
    exact h.of_copy_none htarget rfl rfl
      (h.agrees.mapCertificate (fun _ => rfl) fun _ _ _ => rfl) fun _ => rfl
  | revoke hrevoked =>
    refine h.of_copy_none rfl rfl rfl (h.agrees.revoke hrevoked) fun hc => ?_
    rcases hc with hc | hc
    · cases hc
    · cases hc
  | delete hdeleted =>
    have hrev := hdeleted.revocations
    refine h.of_copy_none rfl rfl rfl (h.agrees.of_rows hrev fun c hc => ?_) fun _ => hrev
    rw [hdeleted.certificates] at hc
    exact ⟨c, (mem_filter.1 hc).1, rfl, rfl, rfl⟩
  | restore => exact absurd rfl (himport _ _ _)
  | complete => cases hcall

end Step

/-! ## Every sequence of calls -/

section Run

variable {P : Platform} {t : Id} {s s' : Database} {x : Turn}

theorem Agrees.imported (h : Agrees t s) {subj : Subjects} {doc : Document} {mode : String}
    {e : Nat → Env} {n : Nat} (hids : IdsUnused s ⟨.importBackup subj doc mode, e⟩)
    (hdoc : DocumentAgrees s subj.tenantID doc mode)
    (himp : Imported subj.tenantID doc mode s s') (hdraw : DrawsIds (e n) s s') :
    Agrees t s' := by
  intro c hc ht
  unfold OnRecord
  rw [himp.revocations]
  cases himp.rows c hc with
  | stored old hold status chainPEM updatedBy hsame hstatus =>
    subst hsame
    have hbefore := h old hold ht
    rcases hstatus with rfl | ⟨hten, hmode, dc, hdc, hser, rfl⟩
    · exact hbefore
    · -- written over: the document's status agrees with the stored one
      have hagree := (hdoc dc hdc).1 hmode old hold hten hser.symm
      exact hagree.trans hbefore
  | created hnew hten hkey hlink hkind hfrom =>
    obtain ⟨dc, hdc, hser, hst⟩ := hfrom
    refine iff_of_false ?_ ?_
    · rw [← hst]
      refine (hdoc dc hdc).2 fun o ho hot => ?_
      rw [hser]
      exact (hnew o ho).2 hot
    · -- its id has just been drawn
      rintro ⟨r, hr, -, hrid⟩
      rcases hdraw c hc with ⟨o, ho, hoid⟩ | ⟨k, hk⟩
      · exact (hnew o ho).1 hoid
      · exact hids n k r hr (hrid.trans hk)

theorem serve_importBackup (subj : Subjects) (doc : Document) (mode : String) (e : Nat → Env) :
    serve P s ⟨.importBackup subj doc mode, e⟩ = s ∨
      Imported subj.tenantID doc mode s (serve P s ⟨.importBackup subj doc mode, e⟩) ∧
        DrawsIds (e 0) s (serve P s ⟨.importBackup subj doc mode, e⟩) := by
  rcases importBackup_outcome P subj doc mode e s with ⟨-, hsame⟩ | ⟨rep, hr, -, hserve⟩
  · exact .inl hsame
  obtain ⟨heff, hans⟩ := happens_importBackup P subj doc mode (e 0) s
  rw [hr] at heff
  rw [hserve]
  exact .inr ⟨heff, hans⟩

theorem agrees_serve (hcall : ledgerCall x.call) (hids : IdsUnused s x)
    (himport : ImportAgrees s x) (h : Agrees t s) : Agrees t (serve P s x) := by
  obtain ⟨call, e⟩ := x
  by_cases hdoc : ∃ subj doc mode, call = .importBackup subj doc mode
  · obtain ⟨subj, doc, mode, rfl⟩ := hdoc
    rcases serve_importBackup (P := P) (s := s) subj doc mode e with hsame | ⟨himp, hdraw⟩
    · rw [hsame]
      exact h
    · exact h.imported hids (himport (subj.tenantID, doc, mode) rfl) himp hdraw
  have hne : ∀ subj doc mode, call ≠ .importBackup subj doc mode :=
    fun subj doc mode hc => hdoc ⟨subj, doc, mode, hc⟩
  have hon : call.OnCertificates := by
    cases call <;> trivial
  have hwp : (certificateMonitor P call).wp (body P call).run (Finish P call) .start :=
    Spec.Sound.wp_body (S := certificates P Call.OnCertificates)
      (sound_certificates P (fun _ h => h) fun _ _ => trivial) call hon
  refine (Monitor.exec_of_wp (J := fun h => KeepsLedger t e call s (progress h)) ?_ s [] hwp
    ?_).1.agrees
  · intro h s ev s' hJ hok
    rw [progress_push]
    exact hJ.step hids hcall hne hok.1 hok.2
  refine ⟨h, ?_, ?_, fun _ => rfl⟩
  · rintro old ⟨⟩
  · intro id hid
    cases hid

end Run

/-- From a tenant without certificates and revocations on, in every sequence of calls whose
imports agree with what is on record, a certificate is stored as revoked just when the
revocations table holds a row for it. -/
theorem status_agrees (P : Platform) (t : Id) (db : Database) (hempty : NoLedger t db)
    (xs : List Turn) (hcalls : ∀ x ∈ xs, ledgerCall x.call) (hids : EachMeets P IdsUnused db xs)
    (himports : EachMeets P ImportAgrees db xs) : Agrees t (serveAll P db xs) := by
  have hstart : Agrees t db := fun c hc ht => absurd ht (hempty.1 c hc)
  have hboth : EachMeets P (fun s x => IdsUnused s x ∧ ImportAgrees s x) db xs :=
    hids.and himports
  refine serveAll_inv P ?_ hstart hboth
  intro s x hx hcond h
  exact agrees_serve (hcalls x hx) hcond.1 hcond.2 h

/-! ## Imports into an empty database -/

namespace Sample

/-- A document with one issuer and one certificate of it. -/
def document (status : CertStatus) : Document where
  version := 1
  exportedAt := 0
  tenant := 1
  includesCredentials := false
  issuers := [⟨"main", .selfSigned, "td", true, .empty, .empty⟩]
  certificates :=
    [⟨"7", "spiffe://td/a", "main", "spiffe://td/a", [], 0, 900, "", status, "C", "R"⟩]
  permissions := []
  secrets := []

/-- A call in a quiet world. -/
def turn (id : Id) (call : Call) : Turn := ⟨call, fun _ => env id⟩

/-- The administrator imports an active certificate, revokes it, and imports it once more as it
is now stored. -/
def restoreRevoked : List Turn :=
  [turn 10 (.importBackup admin (document .active) "skip"), turn 20 (.revoke admin 12 ""),
    turn 30 (.importBackup admin (document .revoked) "overwrite")]

end Sample

open Sample

set_option maxRecDepth 4000 in
/-- The restored certificate is revoked, and on record. -/
theorem status_agrees_after_restore :
    Agrees 1 (serveAll platform .empty restoreRevoked) ∧
      (serveAll platform .empty restoreRevoked).status? 1 12 = some .revoked := by
  have hfirst : (serveAll platform .empty (restoreRevoked.take 1)).revocations.rows
      = [] := by decide
  have hsecond : (serveAll platform .empty
      (restoreRevoked.take 2)).revocations.rows.map Revocation.certificateID = [12] := by
    decide
  have hids : EachMeets platform IdsUnused .empty restoreRevoked := by
    refine ⟨?_, ?_, ?_, trivial⟩
    · intro n k r hr
      cases hr
    · intro n k r hr
      rw [show serve platform .empty _ =
        serveAll platform .empty (restoreRevoked.take 1) from rfl, hfirst] at hr
      cases hr
    · -- the ids of the last import start at 30
      intro n k r hr
      have hmem : r.certificateID ∈ [12] := by
        exact mem_map_of_mem hr
      have h12 : r.certificateID = 12 := mem_singleton.1 hmem
      intro heq
      have h30 : 30 ≤ r.certificateID := heq ▸ Nat.le_add_right 30 k
      rw [h12] at h30
      exact absurd h30 (by decide)
  refine ⟨?_, by decide⟩
  exact status_agrees platform 1 .empty ⟨by decide, by decide⟩ restoreRevoked
    (by decide) hids (by decide)

set_option maxRecDepth 4000 in
/-- A revoked certificate of a backup is stored as revoked, and no revocation of it is on
record. -/
theorem status_disagrees :
    ¬ ∀ (P : Platform) (t : Id) (db : Database), NoLedger t db → ∀ xs : List Turn,
      (∀ x ∈ xs, ledgerCall x.call) → EachMeets P IdsUnused db xs →
      Agrees t (serveAll P db xs) := by
  intro h
  have hagrees := h platform 1 .empty ⟨by decide, by decide⟩
    [turn 10 (.importBackup admin (document .revoked) "skip")] (by decide)
    ⟨fun _ _ _ hr => (by cases hr), trivial⟩
  have hnot : ¬ Agrees 1 (serveAll platform .empty
      [turn 10 (.importBackup admin (document .revoked) "skip")]) := by
    decide
  exact hnot hagrees

end Lcm
