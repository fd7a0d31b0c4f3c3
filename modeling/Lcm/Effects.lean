import Lcm.System
import Lcm.Transfer.Restore

/-!
# What an event does to the database

`Effect s ev s'` says what the step that emits `ev` has done, for every event: reads leave the
database as it is, a failed call too, and a successful write has rewritten just the rows it
names. The lemmas `effect_*` prove it once for each repository call of the services; every
later argument about a run rests on them and looks into no transaction again.
-/

namespace Lcm

open Conc Db Svc Sql Tx Database

/-- The certificate `row` has been inserted: its issuer exists, its serial is new to the tenant
and its id to the table. Only the log and the grants changed besides. -/
structure Inserted (row : IssuedCertificate) (s s' : Database) : Prop where
  issuer : (s.issuers.get? row.issuerID).isSome
  serial : ∀ o ∈ s.certificates.rows, o.tenantID = row.tenantID → o.serial ≠ row.serial
  table : ∃ now, s.certificates.insert? (row.stored now) = some s'.certificates
  issuers : s'.issuers = s.issuers
  requests : s'.requests = s.requests
  jobs : s'.jobs = s.jobs
  revocations : s'.revocations = s.revocations

variable {id t : Id} {e : Env} {s : Database} {ss ss' : Session Database}
  {E : Database → Database → Prop} {α : Type}

namespace Inserted

variable {row : IssuedCertificate} {s s' : Database} (h : Inserted row s s')
include h

theorem fresh (t : Id) : s.certificate? t row.id = none := by
  obtain ⟨now, ht⟩ := h.table
  have hnone := (Table.insert?_eq_some ht).1
  unfold certificate?
  rw [show s.certificates.get? row.id = none from hnone]
  rfl

theorem rows :
    ∃ now, s'.certificates.rows = s.certificates.rows ++ [row.stored now] := by
  obtain ⟨now, ht⟩ := h.table
  exact ⟨now, (Table.insert?_eq_some ht).2⟩

theorem certificate?_of_ne (hid : id ≠ row.id) :
    s'.certificate? t id = s.certificate? t id := by
  obtain ⟨now, ht⟩ := h.table
  unfold certificate?
  rw [Table.get?_insert ht, if_neg]
  exact fun he => hid he.symm

theorem certificate?_mono {c : IssuedCertificate}
    (hc : s.certificate? t id = some c) : s'.certificate? t id = some c := by
  have hid : id ≠ row.id := by
    rintro rfl
    rw [h.fresh t] at hc
    cases hc
  rw [h.certificate?_of_ne hid, hc]

theorem certificate?_self :
    ∃ now, s'.certificate? row.tenantID row.id = some (row.stored now) := by
  obtain ⟨now, ht⟩ := h.table
  refine ⟨now, ?_⟩
  unfold certificate?
  rw [Table.get?_insert ht]
  simp [IssuedCertificate.stored]

end Inserted

/-- The certificate has been marked revoked and a revocation row for it stored. -/
structure Revoked (tenantID id : Id) (s s' : Database) : Prop where
  existed : (s.certificate? tenantID id).isSome
  certificates : s'.certificates = (s.mapCertificate id (fun c => c.setStatus .revoked none)
    fun c => c.setStatus_id .revoked none).certificates
  revocation : ∃ r, r.tenantID = tenantID ∧ r.certificateID = id ∧
    s.revocations.insert? r = some s'.revocations
  issuers : s'.issuers = s.issuers

/-- The certificate has been removed. -/
structure Deleted (tenantID id : Id) (s s' : Database) : Prop where
  existed : (s.certificate? tenantID id).isSome
  certificates : s'.certificates = s.certificates.filter fun c => !(c.id == id)
  revocations : s'.revocations = s.revocations
  issuers : s'.issuers = s.issuers

def RequestMoved (tenantID id : Id) (status : RequestStatus) (s s' : Database) : Prop :=
  (s.request? tenantID id).isSome ∧ ∃ approver reason,
    s' = { s with
      requests := s.requests.update id (fun r => r.setStatus status approver reason)
        fun r => r.setStatus_id status approver reason }

theorem CertificateRequest.ended_id (r : CertificateRequest) (status : RequestStatus)
    (certificateID : Option Id) (reason : Option String) :
    ({ r with status, certificateID, reason } : CertificateRequest).id = r.id := rfl

def RequestEnded (tenantID id : Id) (status : RequestStatus) (s s' : Database) : Prop :=
  (s.request? tenantID id).isSome ∧ ∃ certificateID reason, s' = { s with
    requests := s.requests.update id (fun q => { q with status, certificateID, reason })
      fun q => q.ended_id status certificateID reason }

/-- The request has been approved and a queued job for it inserted. -/
structure Approved (tenantID id jobID : Id) (s s' : Database) : Prop where
  existed : (s.request? tenantID id).isSome
  requests : ∃ approver reason, s'.requests =
    s.requests.update id (fun r => r.setStatus .approved approver reason)
      fun r => r.setStatus_id .approved approver reason
  job : ∃ j, j.id = jobID ∧ j.tenantID = tenantID ∧ j.requestID = id ∧ j.status = .queued ∧
    s.jobs.insert? j = some s'.jobs

/-- The jobs `due` were queued and are now in processing; they are returned as claimed. -/
structure Claimed (rows : List CertificateJob) (s s' : Database) : Prop where
  due : ∃ (due : List CertificateJob) (lease : Time), rows = due.map (fun j => j.claim lease) ∧ due.Nodup ∧
    (∀ j ∈ due, j ∈ s.jobs.rows ∧ j.status = .queued) ∧
    s'.jobs.rows = s.jobs.rows.map fun j => if j ∈ due then j.claim lease else j
  requests : s'.requests = s.requests

/-- The job has been completed with its certificate and the request marked issued. -/
structure Recorded (job : CertificateJob) (requestID certID : Id) (s s' : Database) : Prop where
  existed : (s.request? job.tenantID requestID).isSome
  jobs : s'.jobs = s.jobs.update job.id (Enroll.completed job certID).write
    (Enroll.completed job certID).write_id
  requests : ∃ approver reason, s'.requests =
    s.requests.update requestID (fun r => r.setStatus .issued approver reason)
      fun r => r.setStatus_id .issued approver reason

/-- On success `E` has happened; a failed call has changed nothing. -/
def OnOk {α : Type} (r : Except Err α) (s s' : Database) (E : Prop) : Prop :=
  match r with
  | .ok _ => E
  | .error _ => s' = s

/-- What the step that emits the event has done. -/
def Effect (s : Database) (ev : Ev) (s' : Database) : Prop :=
  match ev with
  | .look | .newID _ | .genKey _ | .order _ _ _ | .audit _ | .read | .readIssuer _ | .sign _ _
  | .processJob _ => s' = s
  | .getCertificate t id r | .readBack t id r =>
    s' = s ∧ ∀ c, r = .ok c → s.certificate? t id = some c
  | .dueForRenewal r =>
    s' = s ∧ ∀ cs, r = .ok cs → ∀ c ∈ cs, c ∈ s.certificates.rows ∧ c.status ≠ .revoked ∧
      c.supersededBy = none
  | .insertCertificate row r => OnOk r s s' (Inserted row s s')
  | .updateCertificate row r =>
    OnOk r s s' ((s.certificate? row.tenantID row.id).isSome ∧
      s' = s.mapCertificate row.id row.write row.write_id)
  | .setCertificateStatus t id st sup r =>
    OnOk r s s' ((s.certificate? t id).isSome ∧
      s' = s.mapCertificate id (fun c => c.setStatus st sup) fun c => c.setStatus_id st sup)
  | .markKeyDelivered t id r =>
    OnOk r s s' ((s.certificate? t id).isSome ∧
      s' = s.mapCertificate id IssuedCertificate.delivered IssuedCertificate.delivered_id)
  | .revoke t id r => OnOk r s s' (Revoked t id s s')
  | .deleteCertificate t id r => OnOk r s s' (Deleted t id s s')
  | .insertRequest row r => OnOk r s s' (∃ now, s.requests.insert? (row.stored now) =
      some s'.requests ∧ s' = { s with requests := s'.requests })
  | .completeRequest t id st r =>
    OnOk r s s' (RequestEnded t id st s s')
  | .approve t id jobID r => OnOk r s s' (Approved t id jobID s s')
  | .setRequestStatus t id st r => OnOk r s s' (RequestMoved t id st s s')
  | .updateJob job r =>
    OnOk r s s' ((s.job? job.tenantID job.id).isSome ∧
      s' = { s with jobs := s.jobs.update job.id job.write job.write_id })
  | .claimDueJobs r => match r with
    | .ok rows => Claimed rows s s'
    | .error _ => s' = s
  | .recordResult job rid cid r => OnOk r s s' (Recorded job rid cid s s')
  | .importBackup t doc mode r => OnOk r s s' (Transfer.Imported t doc mode s s')
  | .writeGrants => ∃ grants, s' = { s with grants }
  | .writeCredentials => ∃ secrets webhooks targets, s' = { s with secrets, webhooks, targets }
  | .ensureCA _ _ _ => ∃ cas, s' = { s with cas }
  | .insertIssuer _ _ | .updateIssuer _ _ | .deleteIssuer _ _ _ =>
    ∃ issuers requests grants, s' = { s with issuers, requests, grants }

/-- What the world has to do with the step. The repository calls that follow a mint succeed,
unless the call fails, just when the row they are about exists. A new id, or key, is the one
the world has drawn, and an import gives the certificates it adds such ids. -/
def Answers (e : Env) (s : Database) (ev : Ev) (s' : Database) : Prop :=
  match ev with
  | .newID id => id = e.newID 0
  | .genKey key => key = e.key
  | .importBackup _ _ _ _ => Transfer.DrawsIds e s s'
  | .setCertificateStatus t id _ _ r | .markKeyDelivered t id r =>
    r.isOk = true ↔ e.fault = .ok ∧ (s.certificate? t id).isSome
  | .readBack t id r => r.isOk = true ↔ e.fault = .ok ∧ (s.certificate? t id).isSome
  | _ => True

/-- The step that emits the event has its effect, and a call that fails has a reason. -/
structure Happens (e : Env) (s : Database) (ev : Ev) (s' : Database) : Prop where
  effect : Effect s ev s'
  answers : Answers e s ev s'

/-! ## The repository calls of the services -/

/-- The repository call, whenever it is made, has the effect of the event that tells its
result. -/
def Causes {α : Type} (ev : Except Err α → Ev) (m : Sql α) : Prop :=
  ∀ e s, Effect s (ev (transact m e s).1) (transact m e s).2

theorem onOk_transact {m : Sql α} (h : ∀ a ss, m e ⟨s, false, 0⟩ = (.ok a, ss) → E s ss.db) :
    OnOk (transact m e s).1 s (transact m e s).2 (E s (transact m e s).2) := by
  cases hr : (transact m e s).1 with
  | ok a =>
    obtain ⟨ss, hm, hdb⟩ := transact_ok hr
    rw [hdb]
    exact h a ss hm
  | error err => exact transact_error hr

theorem effect_quiet {ev : Ev} (h : ev.Silent) : Effect s ev s := by
  cases ev <;> first | rfl | exact h.elim

theorem effect_getCertificate (t id : Id) (e : Env) (s : Database) :
    (transact (getCertificate t id) e s).2 = s ∧
      ∀ c, (transact (getCertificate t id) e s).1 = .ok c → s.certificate? t id = some c := by
  refine ⟨transact_readOnly (readOnly_getCertificate t id) e s, ?_⟩
  intro c hc
  exact found_eq_ok.1 (transact_query_ok hc)

theorem effect_dueForRenewal (now before : Time) (n : Nat) :
    Causes .dueForRenewal (dueForRenewal now before n) := by
  intro e s
  refine ⟨transact_readOnly (readOnly_ask_query _ _) e s, ?_⟩
  intro cs hcs c hc
  obtain ⟨ss, hm, -⟩ := transact_ok hcs
  obtain ⟨tie, ss1, hask, hq⟩ := bind_ok.1 hm
  obtain ⟨-, rfl⟩ := ask_ok.1 hask
  obtain ⟨-, db, hdb, -⟩ := stmt_ok.1 hq
  cases hdb
  have hmem := List.mem_of_mem_take hc
  rw [mem_orderBy, List.mem_filter] at hmem
  obtain ⟨hrow, hdue⟩ := hmem
  simp only [DueBy, Bool.and_eq_true, Bool.or_eq_true, beq_iff_eq,
    Option.isNone_iff_eq_none] at hdue
  refine ⟨hrow, ?_, hdue.1.1.1.2⟩
  rcases hdue.1.1.1.1 with h | h <;> simp [h]

theorem grantOwner_ok {ty : ResourceType} {u : String}
    (h : Authz.grantOwner t ty id u e ss = (.ok (), ss')) :
    ∃ table, ss'.db = { ss.db with grants := table } ∧
      ∀ g ∈ table.rows, g ∉ ss.db.grants.rows → g.tenantID = t := by
  unfold Authz.grantOwner at h
  split at h
  · obtain ⟨-, rfl⟩ := pure_ok.1 h
    exact ⟨ss.db.grants, rfl, fun _ hg hn => absurd hg hn⟩
  obtain ⟨gid, ss1, hid, h⟩ := bind_ok.1 h
  obtain ⟨-, rfl⟩ := draw_ok.1 hid
  obtain ⟨g, ss2, hg, h⟩ := bind_ok.1 h
  obtain ⟨-, rfl⟩ := pure_ok.1 h
  obtain ⟨table, hdb, hrows⟩ := upsertGrant_rows hg
  refine ⟨table, hdb, ?_⟩
  intro r hr hn
  obtain ⟨hsame, -⟩ := (hrows r hr).resolve_left hn
  simp only [SameGrant, Bool.and_eq_true, beq_iff_eq] at hsame
  exact hsame.1.1.1.1

section Store

variable (row : IssuedCertificate) (log : CertLogRow) (u : String)

/-- The transaction of `storeCertificate`. -/
abbrev storeTx : Sql Unit := do
  insertCertificate row
  insertCertLog [log]
  Authz.grantOwner row.tenantID .certificate row.id u

variable {row log u}

theorem storeTx_ok (h : storeTx row log u e ss = (.ok (), ss')) :
    (ss.db.issuers.get? row.issuerID).isSome ∧
      (∀ o ∈ ss.db.certificates.rows, o.tenantID = row.tenantID → o.serial ≠ row.serial) ∧
      ∃ now certificates grants, ss.db.certificates.insert? (row.stored now) = some certificates ∧
        ss'.db = { ss.db with certificates, certLog := ss.db.certLog ++ [log], grants } ∧
        ∀ g ∈ grants.rows, g ∉ ss.db.grants.rows → g.tenantID = row.tenantID := by
  obtain ⟨_, ss1, hins, h⟩ := bind_ok.1 h
  obtain ⟨_, ss2, hlog, hgrant⟩ := bind_ok.1 h
  obtain ⟨hissuer, hserial, now, table, htable, hdb1⟩ := insertCertificate_ok hins
  obtain ⟨-, db, hdb, rfl⟩ := stmt_ok.1 hlog
  cases hdb
  obtain ⟨grants, hdb, hgrants⟩ := grantOwner_ok hgrant
  simp only [hdb1] at hdb hgrants
  exact ⟨hissuer, hserial, now, table, grants, htable, hdb, hgrants⟩

variable (row log u)

theorem effect_storeCertificate : Causes (.insertCertificate row) (storeTx row log u) := by
  intro e s
  refine onOk_transact (E := Inserted row) ?_
  intro _ ss hm
  obtain ⟨hissuer, hserial, now, t, g, ht, hdb, -⟩ := storeTx_ok hm
  rw [hdb]
  exact ⟨hissuer, hserial, ⟨now, ht⟩, rfl, rfl, rfl, rfl⟩

end Store

theorem transact_isOk {m : Sql α} {p : Prop}
    (h : (∃ a ss, m e ⟨s, false, 0⟩ = (.ok a, ss) ∧ ss.aborted = false) ↔ p) :
    (transact m e s).1.isOk = true ↔ e.fault = .ok ∧ p := by
  unfold transact
  rw [← h]
  cases hf : e.fault with
  | ok =>
    simp only [true_and]
    constructor
    · intro hok
      cases hr : (m.atomic e s).1 with
      | ok a =>
        obtain ⟨ss, hm, hab, -⟩ := atomic_ok.1 (Prod.ext hr rfl)
        exact ⟨a, ss, hm, hab⟩
      | error err => simp [hr, Except.isOk, Except.toBool] at hok
    rintro ⟨a, ss, hm, hab⟩
    rw [atomic_ok.2 ⟨ss, hm, hab, rfl⟩]
    rfl
  | begin t | stmt t => simp [Except.isOk, Except.toBool]

theorem answers_updateCertificateRow (t id : Id) (f : IssuedCertificate → IssuedCertificate)
    (hf : ∀ c, (f c).id = c.id) (e : Env) (s : Database) :
    (transact (updateCertificateRow t id f hf) e s).1.isOk = true ↔
      e.fault = .ok ∧ (s.certificate? t id).isSome := by
  refine transact_isOk ?_
  constructor
  · rintro ⟨a, ss, hm, -⟩
    exact (updateCertificateRow_ok hm).1
  intro hex
  obtain ⟨c, hc⟩ := Option.isSome_iff_exists.1 hex
  rw [certificate?, Option.filter_eq_some_iff] at hc
  exact ⟨(), _, updateRow_ok.2 ⟨rfl, ⟨c, hc.1, by simpa using hc.2⟩, rfl⟩, rfl⟩

theorem answers_getCertificate (t id : Id) (e : Env) (s : Database) :
    (transact (getCertificate t id) e s).1.isOk = true ↔
      e.fault = .ok ∧ (s.certificate? t id).isSome := by
  refine transact_isOk ?_
  rw [Option.isSome_iff_exists]
  constructor
  · rintro ⟨c, ss, hm, -⟩
    exact ⟨c, found_eq_ok.1 (query_ok.1 hm).2.1⟩
  · rintro ⟨c, hc⟩
    exact ⟨c, _, query_ok.2 ⟨rfl, found_eq_ok.2 hc, rfl⟩, rfl⟩

theorem effect_updateCertificate (row : IssuedCertificate) :
    Causes (.updateCertificate row) (updateCertificate row) := fun _ _ =>
  onOk_transact (E := fun _ s' => _ ∧ s' = _) fun _ _ hm => updateCertificateRow_ok hm

theorem effect_setCertificateStatus (t id : Id) (st : CertStatus) (sup : Option Id) :
    Causes (.setCertificateStatus t id st sup) (setCertificateStatus t id st sup) := fun _ _ =>
  onOk_transact (E := fun _ s' => _ ∧ s' = _) fun _ _ hm => updateCertificateRow_ok hm

theorem effect_markKeyDelivered (t id : Id) :
    Causes (.markKeyDelivered t id) (markKeyDelivered t id) := fun _ _ =>
  onOk_transact (E := fun _ s' => _ ∧ s' = _) fun _ _ hm => updateCertificateRow_ok hm

theorem effect_revoke (t id : Id) (serial reason : String) (now : Time) (by_ : Option String)
    (log : CertLogRow) :
    Causes (.revoke t id) (do
      setCertificateStatus t id .revoked none
      let rid ← newID
      insertRevocation ⟨rid, t, id, serial, reason, now, by_⟩
      insertCertLog [log]) := by
  intro e s
  refine onOk_transact (E := Revoked t id) ?_
  intro _ ss hm
  obtain ⟨_, ss1, hset, hm⟩ := bind_ok.1 hm
  obtain ⟨rid, ss2, hid, hm⟩ := bind_ok.1 hm
  obtain ⟨_, ss3, hrev, hlog⟩ := bind_ok.1 hm
  obtain ⟨hex, hdb⟩ := updateCertificateRow_ok hset
  obtain ⟨-, rfl⟩ := draw_ok.1 hid
  obtain ⟨-, -, tbl, ht, rfl⟩ := insertRow_ok hrev
  obtain ⟨-, db, hdb', rfl⟩ := stmt_ok.1 hlog
  cases hdb'
  rw [hdb] at ht
  have hcerts : ss1.db.certificates = _ := congrArg certificates hdb
  have hissuers : ss1.db.issuers = s.issuers := by
    rw [hdb]
    rfl
  exact ⟨hex, hcerts, ⟨_, rfl, rfl, ht⟩, hissuers⟩

theorem effect_deleteCertificate (t id : Id) :
    Causes (.deleteCertificate t id) (do
      deleteCertificate t id
      Authz.dropResource t .certificate id) := by
  intro e s
  refine onOk_transact (E := Deleted t id) ?_
  intro _ ss hm
  obtain ⟨_, ss1, hdel, hdrop⟩ := bind_ok.1 hm
  obtain ⟨-, ⟨c, hc, ht⟩, rfl⟩ := deleteRow_ok hdel
  unfold Authz.dropResource deleteGrantsOfResource at hdrop
  obtain ⟨-, db, hdb, rfl⟩ := stmt_ok.1 hdrop
  cases hdb
  refine ⟨?_, rfl, rfl, rfl⟩
  simp [certificate?, hc, ht]

theorem happens_importBackup (P : Platform) (subj : Subjects) (doc : Transfer.Document)
    (mode : String) (e : Env) (s : Database) :
    Happens e s
      (.importBackup subj.tenantID doc mode (transact (Transfer.importTx P subj doc mode) e s).1)
      (transact (Transfer.importTx P subj doc mode) e s).2 := by
  have hall := onOk_transact (m := Transfer.importTx P subj doc mode) (e := e) (s := s)
    (E := fun s s' => Transfer.Imported subj.tenantID doc mode s s' ∧ Transfer.DrawsIds e s s')
    fun _ _ hm => Transfer.importTx_ok hm
  cases hr : (transact (Transfer.importTx P subj doc mode) e s).1 with
  | ok rep =>
    rw [hr] at hall
    exact ⟨hall.1, hall.2⟩
  | error err =>
    rw [transact_error hr]
    exact ⟨rfl, Transfer.DrawsIds.refl e s⟩

/-- An import that runs alone: it fails and leaves the database as it was, or returns the report
of its transaction. -/
theorem importBackup_outcome (P : Platform) (subj : Subjects) (doc : Transfer.Document)
    (mode : String) (env : Nat → Env) (s : Database) :
    (∃ err, answer P s ⟨.importBackup subj doc mode, env⟩ = .error err) ∧
        serve P s ⟨.importBackup subj doc mode, env⟩ = s ∨
      ∃ rep, (transact (Transfer.importTx P subj doc mode) (env 0) s).1 = .ok rep ∧
        answer P s ⟨.importBackup subj doc mode, env⟩ = .ok (.report rep) ∧
        serve P s ⟨.importBackup subj doc mode, env⟩
          = (transact (Transfer.importTx P subj doc mode) (env 0) s).2 := by
  have hbody : (body P (.importBackup subj doc mode)).run.exec env 0 s [] = _ :=
    exec_bind_pure env 0 s [] (Transfer.importBackup P subj doc mode) Value.report
  unfold answer serve
  rw [hbody]
  unfold Transfer.importBackup
  split
  · exact .inl ⟨⟨_, rfl⟩, rfl⟩
  split
  · exact .inl ⟨⟨_, rfl⟩, rfl⟩
  · -- the transaction, and then the audit event
    rw [exec_repo_bind]
    cases hr : (transact (Transfer.importTx P subj doc mode) (env 0) s).1 with
    | error err => exact .inl ⟨⟨err, rfl⟩, transact_error hr⟩
    | ok rep => exact .inr ⟨rep, rfl, rfl, rfl⟩

/-! ## What else a transaction leaves alone -/

/-- Only certificates, their log and grants differ from those of `s`. -/
def Stored (s s' : Database) : Prop :=
  ∃ certificates certLog grants, s' = { s with certificates, certLog, grants }

/-- What relates a database to itself and to what the transaction leaves relates it to what the
call leaves. -/
theorem transact_rel {m : Sql α} (hrefl : E s s)
    (h : ∀ a ss, m e ⟨s, false, 0⟩ = (.ok a, ss) → E s ss.db) : E s (transact m e s).2 := by
  cases hr : (transact m e s).1 with
  | ok a =>
    obtain ⟨ss, hm, hdb⟩ := transact_ok hr
    rw [hdb]
    exact h a ss hm
  | error err =>
    rw [transact_error hr]
    exact hrefl

theorem stored_storeCertificate (row : IssuedCertificate) (log : CertLogRow) (u : String)
    (e : Env) (s : Database) : Stored s (transact (storeTx row log u) e s).2 := by
  refine transact_rel ⟨s.certificates, s.certLog, s.grants, rfl⟩ ?_
  intro _ ss hm
  obtain ⟨-, -, now, t, g, -, hdb, -⟩ := storeTx_ok hm
  exact ⟨t, _, g, hdb⟩

/-- Only requests, jobs and grants differ from those of `s`. -/
def Worked (s s' : Database) : Prop :=
  ∃ requests jobs grants, s' = { s with requests, jobs, grants }

theorem Worked.refl (s : Database) : Worked s s := ⟨s.requests, s.jobs, s.grants, rfl⟩

/-! ## Issuers and CAs -/

theorem effect_ensureCA (P : Platform) (t : Id) (td : String) (e : Env) (s : Database) :
    Effect s (.ensureCA t td (transact (Ca.ensureTx P t td) e s).1)
      (transact (Ca.ensureTx P t td) e s).2 := by
  refine transact_rel (E := fun s s' => ∃ cas, s' = { s with cas }) ⟨s.cas, rfl⟩ fun ca ss hm => ?_
  rcases Ca.ensureTx_ok hm with ⟨-, hsame⟩ | ⟨-, table, -, hdb⟩
  · exact ⟨s.cas, hsame⟩
  · exact ⟨table, hdb⟩

/-- Only issuers, requests and grants differ from those of `s`. -/
def Administered (s s' : Database) : Prop :=
  ∃ issuers requests grants, s' = { s with issuers, requests, grants }

namespace Administered

variable {s : Database}

theorem issuers {s' : Database} (h : Administered s s') (table : Table Issuer.id) :
    Administered s { s' with issuers := table } := by
  obtain ⟨i, r, g, rfl⟩ := h
  exact ⟨table, r, g, rfl⟩

theorem grants (s' : Database) (table : Table Grant.id) (h : Administered s s') :
    Administered s { s' with grants := table } := by
  obtain ⟨i, r, g, rfl⟩ := h
  exact ⟨i, r, table, rfl⟩

theorem refl (s : Database) : Administered s s := ⟨s.issuers, s.requests, s.grants, rfl⟩

end Administered

theorem effect_createTx (P : Platform) (subj : Subjects) (row : Issuer) (e : Env) (s : Database) :
    Administered s (transact (Issue.createTx P subj row) e s).2 := by
  refine transact_inv (Issue.holds_createTx (fun _ => ?_) ?_ Administered.grants)
    (Administered.refl s)
  · exact holds_clearDefaultIssuer fun s' h => h.issuers _
  · exact holds_insertIssuer fun s' t h _ _ _ => ⟨h.issuers t, trivial⟩

theorem effect_updateTx (P : Platform) (wasDefault : Bool) (row : Issuer) (e : Env)
    (s : Database) : Administered s (transact (Issue.updateTx P wasDefault row) e s).2 := by
  refine transact_inv (Issue.holds_updateTx (fun _ => ?_) ?_) (Administered.refl s)
  · exact holds_clearDefaultIssuer fun s' h => h.issuers _
  · exact holds_updateIssuer fun s' _ h _ _ _ _ => h.issuers _

theorem effect_deleteTx (t id : Id) (e : Env) (s : Database) :
    Administered s (transact (Issue.deleteTx t id) e s).2 := by
  refine transact_inv (Issue.holds_deleteTx (holds_deleteIssuer ?_) Administered.grants)
    (Administered.refl s)
  rintro s' ⟨i, r, g, rfl⟩ -
  exact ⟨_, _, g, rfl⟩

/-! ## Requests and jobs -/

theorem updateRequestRow_ok {f : CertificateRequest → CertificateRequest}
    {hf : ∀ r, (f r).id = r.id} (h : updateRequestRow t id f hf e ss = (.ok (), ss')) :
    (ss.db.request? t id).isSome ∧
      ss'.db = { ss.db with requests := ss.db.requests.update id f hf } := by
  obtain ⟨-, ⟨r, hr, ht⟩, rfl⟩ := updateRow_ok.1 h
  refine ⟨?_, rfl⟩
  simp [request?, hr, ht]

theorem updateJob_ok {job : CertificateJob} (h : updateJob job e ss = (.ok (), ss')) :
    (ss.db.job? job.tenantID job.id).isSome ∧
      ss'.db = { ss.db with jobs := ss.db.jobs.update job.id job.write job.write_id } := by
  obtain ⟨-, ⟨j, hj, ht⟩, rfl⟩ := updateRow_ok.1 h
  refine ⟨?_, rfl⟩
  simp [job?, hj, ht]

theorem effect_completeRequest (t id : Id) (st : RequestStatus) (cert : Option Id)
    (reason : Option String) :
    Causes (.completeRequest t id st) (completeRequest t id st cert reason) := by
  intro e s
  refine onOk_transact (E := RequestEnded t id st) ?_
  intro _ ss hm
  obtain ⟨hex, hdb⟩ := updateRequestRow_ok hm
  exact ⟨hex, cert, reason, hdb⟩

theorem effect_insertRequest (row : CertificateRequest) :
    Causes (.insertRequest row) (insertRequest row) := by
  intro e s
  refine onOk_transact (E := fun s s' => ∃ now, s.requests.insert? (row.stored now) =
    some s'.requests ∧ s' = { s with requests := s'.requests }) ?_
  intro _ ss hm
  obtain ⟨now, ss1, hask, hins⟩ := bind_ok.1 hm
  obtain ⟨-, rfl⟩ := ask_ok.1 hask
  obtain ⟨-, -, t, ht, rfl⟩ := insertRow_ok hins
  exact ⟨now, ht, rfl⟩

theorem effect_setRequestStatus (t id : Id) (st : RequestStatus) (a b : Option String) :
    Causes (.setRequestStatus t id st) (setRequestStatus t id st a b) := by
  intro e s
  refine onOk_transact (E := RequestMoved t id st) ?_
  intro _ ss hm
  obtain ⟨hex, hdb⟩ := updateRequestRow_ok hm
  exact ⟨hex, a, b, hdb⟩

section Approve

variable (t id jobID : Id) (a b : Option String) (j : CertificateJob)
  (hj : j.id = jobID ∧ j.tenantID = t ∧ j.requestID = id ∧ j.status = .queued)

abbrev approveTx : Sql Unit := do
  setRequestStatus t id .approved a b
  insertJob j

include hj

theorem approveTx_ok (h : approveTx t id a b j e ss = (.ok (), ss')) :
    Approved t id jobID ss.db ss'.db ∧ Worked ss.db ss'.db := by
  obtain ⟨_, ss1, hset, h⟩ := bind_ok.1 h
  obtain ⟨hex, hdb⟩ := updateRequestRow_ok hset
  obtain ⟨now, ss2, hask, hins⟩ := bind_ok.1 h
  obtain ⟨-, rfl⟩ := ask_ok.1 hask
  obtain ⟨-, -, jobs, ht, rfl⟩ := insertRow_ok hins
  rw [hdb] at ht ⊢
  obtain ⟨hid, htenant, hrequest, hqueued⟩ := hj
  exact ⟨⟨hex, ⟨a, b, rfl⟩, { j with createdAt := now }, hid, htenant, hrequest, hqueued, ht⟩,
    _, jobs, ss.db.grants, rfl⟩

theorem effect_approve : Causes (.approve t id jobID) (approveTx t id a b j) := fun _ _ =>
  onOk_transact (E := Approved t id jobID) fun _ _ hm => (approveTx_ok t id jobID a b j hj hm).1

end Approve

theorem effect_updateJob (job : CertificateJob) :
    Causes (.updateJob job) (updateJob job) := fun _ _ =>
  onOk_transact (E := fun _ s' => _ ∧ s' = _) fun _ _ hm => updateJob_ok hm

theorem effect_claimDueJobs (now : Time) (lease : Duration) (n : Nat) :
    Causes .claimDueJobs (claimDueJobs now lease n) := by
  intro e s
  cases hr : (transact (claimDueJobs now lease n) e s).1 with
  | error err => exact transact_error hr
  | ok rows =>
    obtain ⟨ss, hm, hdb⟩ := transact_ok hr
    obtain ⟨tie, ss1, hask, hq⟩ := bind_ok.1 hm
    obtain ⟨-, rfl⟩ := ask_ok.1 hask
    obtain ⟨-, db, hdone, rfl⟩ := stmt_ok.1 hq
    cases hdone
    rw [hdb]
    refine ⟨⟨_, now + lease, rfl, ?_, ?_, rfl⟩, rfl⟩
    · have hrows : s.jobs.rows.Nodup := s.jobs.nodup.of_map _
      have hdue : (s.jobs.rows.filter (Claimable now)).Nodup := hrows.filter _
      exact ((orderBy_perm _ _ _).nodup_iff.2 hdue).sublist (List.take_sublist _ _)
    intro j hj
    have hmem := List.mem_of_mem_take hj
    rw [mem_orderBy, List.mem_filter] at hmem
    refine ⟨hmem.1, ?_⟩
    have hc := hmem.2
    simp only [Claimable, Bool.and_eq_true, beq_iff_eq] at hc
    exact hc.1.1

section Record

variable (job : CertificateJob) (r : CertificateRequest) (certID : Id)

theorem recordTx_ok (h : Enroll.recordTx job r certID e ss = (.ok (), ss')) :
    Recorded job r.id certID ss.db ss'.db ∧ Worked ss.db ss'.db := by
  obtain ⟨_, ss1, hjob, h⟩ := bind_ok.1 h
  obtain ⟨_, ss2, hreq, h⟩ := bind_ok.1 h
  obtain ⟨-, hdb1⟩ := updateJob_ok hjob
  obtain ⟨hex, hdb2⟩ := updateRequestRow_ok hreq
  have hgrant : ∃ g, ss'.db = { ss2.db with grants := g } := by
    split at h
    · obtain ⟨g, hdb, -⟩ := grantOwner_ok h
      exact ⟨g, hdb⟩
    · obtain ⟨-, rfl⟩ := pure_ok.1 h
      exact ⟨_, rfl⟩
  obtain ⟨g, hdb⟩ := hgrant
  rw [hdb1] at hex
  rw [hdb, hdb2, hdb1]
  exact ⟨⟨hex, rfl, none, none, rfl⟩, _, _, g, rfl⟩

theorem effect_recordResult :
    Causes (.recordResult job r.id certID) (Enroll.recordTx job r certID) := fun _ _ =>
  onOk_transact (E := Recorded job r.id certID) fun _ _ hm => (recordTx_ok job r certID hm).1

end Record

end Lcm
