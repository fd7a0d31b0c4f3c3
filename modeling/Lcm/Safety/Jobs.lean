import Lcm.Safety.OneCertificate

/-!
# Jobs whose worker is gone, and jobs that are cancelled

`ClaimDueJobs` leases a job to a worker for some time. The claim looks at queued jobs only, so
a job whose worker has stopped is not handed out again when its lease has run out.

`CancelJob` marks a job failed. A worker that has claimed the job before holds a copy of it,
and when it has minted the certificate it writes that copy back, whatever is stored by then.

* `expired_reclaimed_iff`: a claim with room for all of them returns the jobs with an expired
  lease just when there are none; `expired_not_reclaimed` reaches a state where there is one.
* `cancelled_stays_failed`: a cancelled job stays failed and its request is not issued, as long
  as no worker records a result of a failed job; `cancelled_then_issued` is a run where one does.
-/

namespace Lcm

open Conc Db Svc List Database Config

/-! ## Expired leases -/

/-- The calls a job may meet, with the worker's two steps as calls of their own. A worker that
stops is one that makes no more steps. -/
def jobCall : Call → Bool
  | .approveRequest _ _ _ | .claimDueJobs _ _ _ | .processJob _ | .cancelJob _ _
  | .retryJob _ _ => true
  | _ => false

/-- The job is in processing and its lease has run out. -/
def CertificateJob.Expired (now : Time) (j : CertificateJob) : Prop :=
  j.status = .processing ∧ ∃ lease ∈ j.leaseUntil, lease < now

instance (now : Time) (j : CertificateJob) : Decidable (j.Expired now) :=
  inferInstanceAs (Decidable (_ ∧ _))

/-- The jobs that wait for a worker: those that are queued and due, and the expired ones. -/
def Database.waiting (s : Database) (now : Time) : List CertificateJob :=
  s.jobs.rows.filter fun j => Sql.Claimable now j || decide (j.Expired now)

/-- Every `ClaimDueJobs` that meets no database error and has room for all waiting jobs returns
the expired ones. -/
def ReclaimsExpired (s : Database) (now : Time) : Prop :=
  ∀ (e : Env) (lease : Duration) (limit : Nat), e.fault = .ok → (s.waiting now).length ≤ limit →
    ∀ job ∈ s.jobs.rows, job.Expired now →
      ∃ rows, (transact (Sql.claimDueJobs now lease limit) e s).1 = .ok rows ∧
        ∃ j ∈ rows, j.id = job.id

/-- Expired jobs are returned just when there are none. -/
theorem expired_reclaimed_iff (s : Database) (now : Time) :
    ReclaimsExpired s now ↔ ∀ job ∈ s.jobs.rows, ¬ job.Expired now := by
  constructor
  · intro h job hjob hexp
    rcases h (Sample.env 0) 0 _ rfl (le_refl _) job hjob hexp with ⟨rows, hrows, j, hj, hid⟩
    have heff := effect_claimDueJobs now 0 (s.waiting now).length (Sample.env 0) s
    rw [hrows] at heff
    -- a job that is claimed was queued
    obtain ⟨due, lease, rfl, -, hdue, -⟩ := heff.due
    obtain ⟨k, hk, rfl⟩ := mem_map.1 hj
    obtain ⟨hrow, hqueued⟩ := hdue k hk
    obtain rfl : k = job := s.jobs.eq_of_key_eq hrow hjob hid
    rw [hexp.1] at hqueued
    cases hqueued
  · intro h e lease limit _ _ job hjob hexp
    exact absurd hexp (h job hjob)

namespace Sample

/-- An approval; then a worker claims the job at time 100, for 60, and stops. -/
def approveAndClaim : List SysAct :=
  .spawn (.approveRequest admin 5 "") :: steps 0 9 10 ++
    .spawn (.claimDueJobs 100 60 50) :: steps 1 1 30

end Sample

/-- A job whose worker has stopped is not claimed again at time 200. -/
theorem expired_not_reclaimed :
    ¬ ∀ (P : Platform) (db : Database), db.jobs.rows = [] → ∀ as : List SysAct,
      (∀ a ∈ as, a.Calls fun c => jobCall c) → AllMeet P ProcessesClaimed db as →
      ∀ now, ReclaimsExpired (runFrom P db as).store now := by
  intro h
  have hall := h Sample.platform Sample.withRequest rfl Sample.approveAndClaim (by decide)
    (by decide) 200
  have hexp : ∃ job ∈ (runFrom Sample.platform Sample.withRequest
      Sample.approveAndClaim).store.jobs.rows, job.Expired 200 := by
    decide
  rcases hexp with ⟨job, hjob, hexp⟩
  rcases hall (Sample.env 40) 60 50 rfl (by decide) job hjob hexp with ⟨rows, hrows, j, hj, -⟩
  have hnone : (transact (Sql.claimDueJobs 200 60 50) (Sample.env 40)
      (runFrom Sample.platform Sample.withRequest Sample.approveAndClaim).store).1 = .ok [] := by
    decide
  rw [hnone] at hrows
  cases hrows
  cases hj

/-! ## Cancelled jobs -/

def cancelCall : Call → Bool
  | .cancelJob _ _ | .retryJob _ _ | .once => true
  | _ => false

/-- The status a tenant's job is stored with. -/
def Database.jobStatus? (s : Database) (t id : Id) : Option JobStatus :=
  (s.job? t id).map CertificateJob.status

/-- The step puts the job back into the queue. -/
def Ev.requeued (id : Id) : Ev → Bool
  | .updateJob job (.ok _) => job.id == id && job.status == .queued
  | _ => false

/-- No `RetryJob` puts the job back into the queue once call `i` has written it. -/
def NotRetriedAfter (i : Nat) (id : Id) (cfg : SysConfig) : SysAct → Prop
  | .spawn _ => True
  | .run k e => ∀ ev ∈ cfg.emits k e, ev.requeued id = true →
      ∀ u ∈ cfg.threads[i]?, (work u.hist).wrote = false

instance (i : Nat) (id : Id) (cfg : SysConfig) : DecidablePred (NotRetriedAfter i id cfg)
  | .spawn _ => .isTrue trivial
  | .run _ _ => inferInstanceAs (Decidable (∀ _ ∈ _, _))

/-- The job whose result the step records, with the request it marks issued. -/
def Ev.records? : Ev → Option (CertificateJob × Id)
  | .recordResult job requestID _ _ => some (job, requestID)
  | _ => none

/-- The job is not stored as failed when the step records a result for it or its request. -/
def MeetsUncancelled (id : Id) (s : Database) (ev : Ev) : Prop :=
  ∀ x ∈ ev.records?, ∀ row ∈ s.jobs.rows, row.id = id →
    (x.1.id = id ∨ row.isFor x.1.tenantID x.2 = true) → row.status ≠ .failed

instance (id : Id) (s : Database) (ev : Ev) : Decidable (MeetsUncancelled id s ev) :=
  inferInstanceAs (Decidable (∀ _ ∈ _, _))

/-- A worker records a result for the job or its request only while the job is not failed. -/
def RecordsUncancelled (id : Id) (cfg : SysConfig) : SysAct → Prop
  | .spawn _ => True
  | .run k e => ∀ ev ∈ cfg.emits k e, MeetsUncancelled id cfg.store ev

instance (id : Id) (cfg : SysConfig) : DecidablePred (RecordsUncancelled id cfg)
  | .spawn _ => .isTrue trivial
  | .run _ _ => inferInstanceAs (Decidable (∀ _ ∈ _, _))

/-! ### One step -/

section Step

variable {call : Call} {g : Work} {s s' : Database} {ev : Ev} {t id : Id} {st : JobStatus}

theorem jobStatus?_eq_some : s.jobStatus? t id = some st ↔
      ∃ row ∈ s.jobs.rows, row.id = id ∧ row.tenantID = t ∧ row.status = st := by
  simp [jobStatus?, job?_eq_some, and_assoc]

theorem jobStatus?_update {job : CertificateJob}
    (h : s'.jobs = s.jobs.update job.id job.write job.write_id) (hst : s.jobStatus? t id = some st) :
    s'.jobStatus? t id = some (if id = job.id then job.status else st) := by
  rcases jobStatus?_eq_some.1 hst with ⟨row, hrow, rfl, rfl, rfl⟩
  have hmem : (if row.id = job.id then job.write row else row) ∈ s'.jobs.rows := by
    rw [h, Table.rows_update]
    exact mem_map_of_mem hrow
  refine jobStatus?_eq_some.2 ⟨_, hmem, ?_⟩
  split <;> exact ⟨rfl, rfl, rfl⟩

theorem failed_step (heff : Effect s ev s') (hproto : Enroll.Protocol call g ev)
    (hrecord : MeetsUncancelled id s ev) (hretry : ev.requeued id = false)
    (hfailed : s.jobStatus? t id = some .failed) : s'.jobStatus? t id = some .failed := by
  rcases jobStatus?_eq_some.1 hfailed with ⟨row, hrow, hid, ht, hst⟩
  cases jobs_step heff hproto with
  | same _ h =>
    rw [jobStatus?_eq_some, h]
    exact ⟨row, hrow, hid, ht, hst⟩
  | updated job h =>
    rw [jobStatus?_update h hfailed]
    split
    · -- written as failed again: only a retry writes anything else
      next hjob =>
        rcases hproto.1 with hf | ⟨hq, -⟩
        · rw [hf]
        · simp [Ev.requeued, hjob, hq] at hretry
    · rfl
  | recorded job rid cid h =>
    have hjobs : s'.jobs = s.jobs.update (Enroll.completed job cid).id _ _ := h.jobs
    rw [jobStatus?_update hjobs hfailed, if_neg]
    intro hjob
    exact hrecord (job, rid) rfl row hrow hid (.inl hjob.symm) hst
  | claimed rows h =>
    rcases h.due with ⟨due, lease, -, -, hdue, hrows⟩
    -- a failed job is not among the due ones
    have hnot : row ∉ due := by
      intro hmem
      have hqueued := (hdue row hmem).2
      rw [hst] at hqueued
      cases hqueued
    rw [jobStatus?_eq_some, hrows]
    exact ⟨row, mem_map.2 ⟨row, hrow, if_neg hnot⟩, hid, ht, hst⟩
  | approved t1 id1 jobID h =>
    rcases h.job with ⟨j, -, -, -, -, hins⟩
    rw [jobStatus?_eq_some, (Table.insert?_eq_some hins).2]
    exact ⟨row, mem_append_left _ hrow, hid, ht, hst⟩

theorem records_of_issues {t1 r1 : Id} (hproto : Enroll.Protocol call g ev)
    (h : ev.moves? = some (t1, r1, .issued)) :
    ∃ job, ev.records? = some (job, r1) ∧ job.tenantID = t1 := by
  cases ev with
  | approve _ _ _ r => cases r <;> cases h
  | setRequestStatus _ _ _ r =>
    rcases hproto with ⟨_, _, -, -, rfl⟩
    cases r <;> cases h
  | recordResult job rid _ r =>
    cases r with
    | error e => cases h
    | ok _ =>
      cases h
      exact ⟨job, rfl, rfl⟩
  | _ => cases h

theorem not_issued_step (heff : Effect s ev s') (hproto : Enroll.Protocol call g ev)
    {row : CertificateJob} (hrecord : MeetsUncancelled row.id s ev)
    (hfailed : s.jobStatus? row.tenantID row.id = some .failed) (hjob : s.HasJob row)
    (hreq : s.requestStatus? row.tenantID row.requestID ≠ some .issued) :
    s'.requestStatus? row.tenantID row.requestID ≠ some .issued := by
  rcases requestStatus?_step heff hproto with ⟨-, h⟩ | ⟨t1, r1, st, hmove, hex, h⟩
  · unfold requestStatus? request? at hreq ⊢
    rw [h]
    exact hreq
  intro hissued
  rw [h] at hissued
  rcases Option.map_eq_some_iff.1 hissued with ⟨st0, hst0, hst⟩
  by_cases hr : row.requestID = r1
  · subst hr
    have ht := request_tenant_unique hst0 hex
    subst ht
    simp only [if_true] at hst
    subst hst
    -- a result is recorded for the request of a job that is stored as failed
    rcases records_of_issues hproto hmove with ⟨job, hrec, ht⟩
    rcases jobStatus?_eq_some.1 hfailed with ⟨stored, hmem, hid, -, hf⟩
    rcases mem_map.1 hjob with ⟨known, hknown, horigin⟩
    simp only [CertificateJob.origin, Prod.mk.injEq] at horigin
    have hsame : known = stored :=
      s.jobs.eq_of_key_eq hknown hmem (horigin.1.trans hid.symm)
    subst hsame
    refine hrecord _ hrec known hmem hid (.inr ?_) hf
    simp [CertificateJob.isFor, horigin, ht]
  · rw [if_neg hr] at hst
    rw [hst0, hst] at hreq
    exact hreq rfl

end Step

/-! ### Every run -/

theorem Work.wrote_next {g : Work} (h : g.wrote = true) (ev : Ev) : (g.next ev).wrote = true := by
  rcases (g.steps ev).wrote with hw | ⟨job, rfl⟩
  · rw [hw]
    exact h
  · simp [Work.next, h]

/-- Call `i` is a `CancelJob` of the job and has written it. -/
def HasCancelled (i : Nat) (subj : Subjects) (id : Id) (us : List (Record Database Ev Call)) :
    Prop :=
  ∃ u, us[i]? = some u ∧ u.call = .cancelJob subj id ∧ (work u.hist).wrote = true

variable {cfg : SysConfig} {ev : Ev} {k : Nat} {th : SysThread}

section Run

variable {P : Platform} {i : Nat} {subj : Subjects} {id : Id}

theorem sound_cancelCalls : (enrollment fun c => cancelCall c).Sound
    fun c => (body P c).run := by
  refine sound_enrollment P ?_
  intro c hc
  cases c <;> trivial

theorem uncancelled_of_step {e : Env}
    (hc : RecordsUncancelled id cfg (.run k e) ∧ NotRetriedAfter i id cfg (.run k e))
    (hev : cfg.emits k e = some ev) (hdone : HasCancelled i subj id cfg.records) :
    MeetsUncancelled id cfg.store ev ∧ ev.requeued id = false := by
  refine ⟨hc.1 ev hev, ?_⟩
  rcases hdone with ⟨u, hu, -, hw⟩
  rcases thread_of_record hu with ⟨th, hth, rfl⟩
  by_contra hre
  have hnot := hc.2 ev hev (by simpa using hre) th hth
  rw [hw] at hnot
  cases hnot

theorem hasCancelled_set (hth : cfg.threads[k]? = some th)
    (h : HasCancelled i subj id (cfg.records.set k (th.toRecord.push ev))) :
    HasCancelled i subj id cfg.records ∨
      th.call = .cancelJob subj id ∧ ∃ job, ev = .updateJob job (.ok ()) := by
  rcases h with ⟨u, hu, hcall, hw⟩
  rcases getElem?_set_cases hu with ⟨rfl, rfl⟩ | ⟨-, hu⟩
  · rw [Record.push_hist, work_push] at hw
    rcases ((work th.hist).steps ev).wrote with hsame | hjob
    · rw [hsame] at hw
      exact .inl ⟨th.toRecord, records_getElem? hth, hcall, hw⟩
    · exact .inr ⟨hcall, hjob⟩
  · exact .inl ⟨u, hu, hcall, hw⟩

theorem HasCancelled.set (h : HasCancelled i subj id cfg.records) (hth : cfg.threads[k]? = some th)
    (ev : Ev) : HasCancelled i subj id (cfg.records.set k (th.toRecord.push ev)) := by
  rcases h with ⟨u, hu, hcall, hw⟩
  by_cases hik : k = i
  · subst hik
    have hself : th.toRecord = u := by
      rw [records_getElem? hth] at hu
      exact Option.some.inj hu
    subst hself
    refine ⟨th.toRecord.push ev, ?_, hcall, ?_⟩
    · rw [getElem?_set_self', hu]
      rfl
    · rw [Record.push_hist, work_push]
      exact Work.wrote_next hw ev
  · exact ⟨u, by rw [getElem?_set_ne hik, hu], hcall, hw⟩

theorem failed_of_hasCancelled {e : Env} {s' : Database}
    (hc : RecordsUncancelled id cfg (.run k e) ∧ NotRetriedAfter i id cfg (.run k e))
    (hth : cfg.threads[k]? = some th) (hev : cfg.emits k e = some ev)
    (hok : Effect cfg.store ev s' ∧ Enroll.Protocol th.call (work th.hist) ev)
    (hI : HasCancelled i subj id cfg.records → cfg.store.jobStatus? subj.tenantID id = some .failed)
    (h : HasCancelled i subj id (cfg.records.set k (th.toRecord.push ev))) :
    s'.jobStatus? subj.tenantID id = some .failed := by
  rcases hasCancelled_set hth h with hdone | ⟨hcall, job, rfl⟩
  · rcases uncancelled_of_step hc hev hdone with ⟨hrecord, hretry⟩
    exact failed_step hok.1 hok.2 hrecord hretry (hI hdone)
  · -- the cancellation itself
    rcases hok with ⟨⟨hex, rfl⟩, hst, hown⟩
    rcases hown subj id hcall with ⟨ht, hid⟩
    rcases Option.isSome_iff_exists.1 hex with ⟨row, hrow⟩
    have hbefore : cfg.store.jobStatus? subj.tenantID id = some row.status := by
      rw [← ht, ← hid]
      simp [jobStatus?, hrow]
    rw [jobStatus?_update rfl hbefore, if_pos hid.symm]
    rcases hst with hf | ⟨-, _, _, hretry⟩
    · rw [hf]
    · rw [hcall] at hretry
      cases hretry

/-- After a `CancelJob` has returned without an error, the job stays failed and its request does
not become issued, in every run in which no `RetryJob` requeues the job after the cancellation
and no worker records a result for it or its request while it is failed. -/
theorem cancelled_stays_failed (P : Platform) (db : Database) (as bs : List SysAct)
    (hcalls : ∀ a ∈ as ++ bs, a.Calls fun c => cancelCall c) (i : Nat) (subj : Subjects) (id : Id)
    (hrecord : AllMeet P (RecordsUncancelled id) db (as ++ bs))
    (hretry : AllMeet P (NotRetriedAfter i id) db (as ++ bs)) (v : Value)
    (hret : outcome? (runFrom P db as) i = some (.cancelJob subj id, v)) :
    (runFrom P db (as ++ bs)).store.jobStatus? subj.tenantID id = some .failed ∧
      ∀ row ∈ (runFrom P db as).store.job? subj.tenantID id,
        (runFrom P db as).store.requestStatus? subj.tenantID row.requestID ≠ some .issued →
        (runFrom P db (as ++ bs)).store.requestStatus? subj.tenantID row.requestID
          ≠ some .issued := by
  rcases (meets_append _).1 (meets_and _ hrecord hretry) with ⟨hconds₁, hconds₂⟩
  obtain ⟨hcalls₁, hcalls₂⟩ := forall_mem_append.1 hcalls
  have htracked : (enrollment fun c => cancelCall c).Tracked (runFrom P db as) :=
    Spec.tracked_exec sound_cancelCalls (Spec.tracked_init db) hcalls₁
  -- a new call has written nothing
  have hnew : ∀ us c s, HasCancelled i subj id (us ++ [fresh c s]) →
      HasCancelled i subj id us := by
    rintro us c s ⟨u, hu, hcall, hw⟩
    rcases getElem?_append_cases hu with hu | rfl
    · exact ⟨u, hu, hcall, hw⟩
    · cases hw
  -- up to the return
  have hmid : HasCancelled i subj id (runFrom P db as).records →
      (runFrom P db as).store.jobStatus? subj.tenantID id = some .failed := by
    refine Spec.records_exec (sound_cancelCalls (P := P))
      (I := fun us s => HasCancelled i subj id us →
        s.jobStatus? subj.tenantID id = some .failed) ?_ ?_ (Spec.tracked_init db) ?_ hcalls₁ hconds₁
    · exact fun us c s hI h => hI (hnew us c s h)
    · intro cfg k e th ev s' hc hth _ hev hok hI h
      exact failed_of_hasCancelled hc hth hev hok hI h
    · rintro ⟨u, hu, -⟩
      cases hu
  rcases thread_of_outcome? hret with ⟨th, hth, hcall, hdone⟩
  have hwrote := (htracked.post_of_result (mem_of_getElem? hth) hdone).cancelled subj id v
    hcall rfl
  have hcancelled : HasCancelled i subj id (runFrom P db as).records := by
    exact ⟨th.toRecord, records_getElem? hth, hcall, hwrote⟩
  -- and from there on
  have hend := Spec.records_exec (sound_cancelCalls (P := P))
    (I := fun us s => HasCancelled i subj id us ∧ s.jobStatus? subj.tenantID id = some .failed ∧
      ∀ row ∈ (runFrom P db as).store.job? subj.tenantID id,
        (runFrom P db as).store.requestStatus? subj.tenantID row.requestID ≠ some .issued →
        s.HasJob row ∧ s.requestStatus? subj.tenantID row.requestID ≠ some .issued)
    ?_ ?_ htracked ⟨hcancelled, hmid hcancelled, ?_⟩ hcalls₂ hconds₂
  · rw [show runFrom P db (as ++ bs) = _ from exec_append ..]
    exact ⟨hend.2.1, fun row hmem hreq => (hend.2.2 row hmem hreq).2⟩
  · rintro us c s ⟨⟨u, hu, hrest⟩, hI⟩
    rcases List.getElem?_eq_some_iff.1 hu with ⟨hlt, -⟩
    exact ⟨⟨u, by rw [getElem?_append_left hlt, hu], hrest⟩, hI⟩
  · rintro cfg k e th ev s' hc hth - hev hok ⟨hdone, hfailed, hrow⟩
    have hdone' := hdone.set hth ev
    refine ⟨hdone', failed_of_hasCancelled hc hth hev hok (fun _ => hfailed) hdone', ?_⟩
    intro row hmem hreq
    rcases hrow row hmem hreq with ⟨hjob, hreq⟩
    rcases job?_eq_some.1 hmem with ⟨-, rfl, ht⟩
    rw [← ht] at hfailed hreq ⊢
    refine ⟨hasJob_step hok.1 hok.2 hjob, not_issued_step hok.1 hok.2 ?_ hfailed hjob hreq⟩
    exact (uncancelled_of_step hc hev hdone).1
  · intro row hmem hreq
    exact ⟨mem_map_of_mem (job?_eq_some.1 hmem).1, hreq⟩

end Run

/-! ### Two schedules of the sample deployment -/

namespace Sample

/-- The request, approved, and its queued job. -/
def withJob : Database :=
  { database with
    requests := ⟨[{ requestRow with status := .approved }], by decide⟩
    jobs := ⟨[⟨6, 1, 5, .issue, .queued, none, 0, 5, none, none, 100, 100⟩], by decide⟩ }

/-- The job is cancelled before the worker makes its pass. -/
def cancelAlone : List SysAct := .spawn (.cancelJob admin 6) :: steps 0 8 20

/-- The worker has claimed the job and minted its certificate; then the job is cancelled. -/
def cancelDuringWork : List SysAct :=
  .spawn .once :: steps 0 22 30 ++ .spawn (.cancelJob admin 6) :: steps 1 8 20

/-- What `CancelJob` returns. -/
def cancelledJob : CertificateJob :=
  ⟨6, 1, 5, .issue, .failed, none, 0, 5, none, some "cancelled", 100, 100⟩

end Sample

/-- A worker that begins after the cancellation leaves the job alone. -/
theorem cancelled_stays_failed_before_work :
    (runFrom Sample.platform Sample.withJob
      (Sample.cancelAlone ++ .spawn .once :: Sample.steps 1 10 30)).store.jobStatus? 1 6
      = some .failed :=
  (cancelled_stays_failed Sample.platform Sample.withJob Sample.cancelAlone
    (.spawn .once :: Sample.steps 1 10 30) (by decide) 0 Sample.admin 6 (by decide) (by decide)
    (.job Sample.cancelledJob) (by decide)).1

set_option maxRecDepth 4000 in
/-- A worker that is about to record its result when the job is cancelled completes the job and
issues the request. -/
theorem cancelled_then_issued :
    ¬ ∀ (P : Platform) (db : Database) (as bs : List SysAct),
      (∀ a ∈ as ++ bs, a.Calls fun c => cancelCall c) → ∀ i subj id,
      AllMeet P (NotRetriedAfter i id) db (as ++ bs) → ∀ v,
      outcome? (runFrom P db as) i = some (.cancelJob subj id, v) →
      (runFrom P db (as ++ bs)).store.jobStatus? subj.tenantID id = some .failed ∧
        ∀ row ∈ (runFrom P db as).store.job? subj.tenantID id,
          (runFrom P db as).store.requestStatus? subj.tenantID row.requestID ≠ some .issued →
          (runFrom P db (as ++ bs)).store.requestStatus? subj.tenantID row.requestID
            ≠ some .issued := by
  intro h
  have hend := h Sample.platform Sample.withJob Sample.cancelDuringWork (Sample.steps 0 2 30)
    (by decide) 1 Sample.admin 6 (by decide) (.job { Sample.cancelledJob with attempts := 1 })
    (by decide)
  have hcompleted : (runFrom Sample.platform Sample.withJob
      (Sample.cancelDuringWork ++ Sample.steps 0 2 30)).store.jobStatus? 1 6
      = some .completed := by
    decide
  rw [show Sample.admin.tenantID = 1 from rfl, hcompleted] at hend
  cases hend.1

end Lcm
