import Lcm.Safety.Requests

/-!
# At most one certificate per request?

A request that is approved twice gets two jobs, and a job whose certificate was minted but
whose result could not be recorded may be retried; either way a second certificate is minted.

The argument counts tokens: a pending request, a queued job, a claimed job that is waiting or
in process, and a minted certificate are one token each for their request. Approving, claiming
and minting each turn a token into the next kind; only `RetryJob` makes a new one.

* `at_most_one_certificate`: if approvals are written on pending requests only, and retries
  while nothing is under way or minted for the request, no request has two certificates.
* `two_certificates`: without that, a request may have two.
-/

namespace Lcm

open Conc Db Svc List Database

/-- The calls a request may meet. -/
def enrollCall : Call → Bool
  | .approveRequest _ _ _ | .rejectRequest _ _ _ | .cancelJob _ _ | .retryJob _ _ | .once => true
  | _ => false

/-! ## Tokens -/

def CertificateJob.isFor (j : CertificateJob) (t r : Id) : Bool :=
  j.tenantID == t && j.requestID == r

def Database.pendingCount (s : Database) (t r : Id) : Nat :=
  if s.requestStatus? t r = some .pending then 1 else 0

def Database.jobCount (s : Database) (t r : Id) : Nat := s.jobs.rows.countP fun j => j.isFor t r

def Database.queuedCount (s : Database) (t r : Id) : Nat :=
  s.jobs.rows.countP fun j => j.isFor t r && j.status == .queued

/-- The tokens a call holds: waiting jobs, the job in process, and minted certificates. -/
def Work.held (g : Work) (t r : Id) : Nat :=
  g.todo.countP (fun j => j.isFor t r) + g.mayMint.toList.countP (fun j => j.isFor t r) +
    g.minted.countP fun m => m.1.isFor t r

/-- A pending request has no job, and no request has two. -/
def OneJob (s : Database) : Prop := ∀ t r, s.jobCount t r + s.pendingCount t r ≤ 1

/-! ## The conditions -/

/-- The request the step approves, with its tenant. -/
def Ev.approves? : Ev → Option (Id × Id)
  | .approve t id _ _ => some (t, id)
  | _ => none

/-- An approval is written only while the request is stored as pending. -/
def ApprovesPending (cfg : SysConfig) : SysAct → Prop
  | .spawn _ => True
  | .run i e => ∀ r ∈ (cfg.emits i e).bind Ev.approves?,
      ∀ st ∈ cfg.store.requestStatus? r.1 r.2, st = .pending

instance (cfg : SysConfig) : DecidablePred (ApprovesPending cfg)
  | .spawn _ => .isTrue trivial
  | .run _ _ => inferInstanceAs (Decidable (∀ _ ∈ _, _))

/-- The job the step puts back into the queue. -/
def Ev.requeues? : Ev → Option CertificateJob
  | .updateJob job _ => if job.status = .queued then some job else none
  | _ => none

/-- A job is put back into the queue only while no call has a job of its request waiting or in
process, and none has minted for it. -/
def RetriesIdle (cfg : SysConfig) : SysAct → Prop
  | .spawn _ => True
  | .run i e => ∀ job ∈ (cfg.emits i e).bind Ev.requeues?,
      ∀ row ∈ cfg.store.job? job.tenantID job.id, ∀ u ∈ cfg.threads,
        (work u.hist).held row.tenantID row.requestID = 0

instance (cfg : SysConfig) : DecidablePred (RetriesIdle cfg)
  | .spawn _ => .isTrue trivial
  | .run _ _ => inferInstanceAs (Decidable (∀ _ ∈ _, _))

/-! ## What a step does to the counts -/

section Counts

variable {call : Call} {g : Work} {s s' : Database} {ev : Ev} {t r : Id} {job : CertificateJob}

theorem jobCount_eq (s : Database) (t r : Id) :
    s.jobCount t r = s.origins.countP fun o => o.2.1 == t && o.2.2 == r := by
  unfold jobCount origins
  rw [countP_map]
  rfl

theorem queuedCount_le_jobCount (s : Database) (t r : Id) : s.queuedCount t r ≤ s.jobCount t r := by
  refine countP_mono_left fun j _ hj => ?_
  simp only [Bool.and_eq_true] at hj
  exact hj.1

theorem pendingCount_step (heff : Effect s ev s') (hproto : Enroll.Protocol call g ev) (t r : Id) :
    s'.pendingCount t r ≤ s.pendingCount t r := by
  rcases requestStatus?_step heff hproto with ⟨-, h⟩ | ⟨t1, id1, st, hmove, -, h⟩
  · have hsame : s'.requestStatus? t r = s.requestStatus? t r := by
      unfold requestStatus? request?
      rw [h]
    unfold pendingCount
    rw [hsame]
  have hst : st ≠ .pending := by
    cases ev with
    | approve t2 id2 jobID res => cases res <;> cases hmove; simp
    | setRequestStatus t2 id2 st2 res =>
      rcases hproto with ⟨-, -, -, -, rfl⟩
      cases res <;> cases hmove
      simp
    | recordResult job rid cid res => cases res <;> cases hmove; simp
    | _ => cases hmove
  unfold pendingCount
  rw [h]
  cases s.requestStatus? t r with
  | none => simp
  | some x =>
    by_cases hid : r = id1
    · simp [hid, hst]
    · simp [hid]

theorem pendingCount_approve {jobID : Id} (h : Approved t r jobID s s') :
    s'.pendingCount t r = 0 := by
  rcases h.requests with ⟨a, b, hreq⟩
  unfold pendingCount
  rw [requestStatus?_update hreq]
  cases s.requestStatus? t r <;> simp

theorem pendingCount_of_pending (hex : (s.request? t r).isSome)
    (h : ∀ st ∈ s.requestStatus? t r, st = .pending) : s.pendingCount t r = 1 := by
  rcases requestStatus?_isSome hex with ⟨st, hst⟩
  have hp := h st hst
  subst hp
  simp [pendingCount, hst]

theorem queuedCount_approve {t1 id1 jobID : Id} (h : Approved t1 id1 jobID s s') (t r : Id) :
    s'.queuedCount t r = s.queuedCount t r + if t1 = t ∧ id1 = r then 1 else 0 := by
  rcases h.job with ⟨j, -, rfl, rfl, hq, hins⟩
  unfold queuedCount
  rw [(Table.insert?_eq_some hins).2, countP_append]
  simp [CertificateJob.isFor, hq, countP_cons]

theorem queuedCount_update {id : Id} {j : CertificateJob} (hj : j.status ≠ .queued)
    (h : s'.jobs = s.jobs.update id j.write j.write_id) (t r : Id) :
    s'.queuedCount t r ≤ s.queuedCount t r := by
  unfold queuedCount
  rw [h, Table.rows_update, countP_map]
  refine countP_mono_left fun k _ hk => ?_
  simp only [Function.comp_apply] at hk
  split at hk
  · simp [CertificateJob.write, hj] at hk
  · exact hk

theorem queuedCount_claim {rows : List CertificateJob} (h : Claimed rows s s') (t r : Id) :
    s'.queuedCount t r + rows.countP (fun j => j.isFor t r) ≤ s.queuedCount t r := by
  rcases h.due with ⟨due, lease, rfl, hnodup, hdue, hrows⟩
  -- what is still queued was queued and is not due
  have hrest : s'.queuedCount t r ≤ (s.jobs.rows.filter fun j => !decide (j ∈ due)).countP
      fun j => j.isFor t r && j.status == .queued := by
    unfold queuedCount
    rw [hrows, countP_map, countP_filter]
    refine countP_mono_left fun j _ hj => ?_
    simp only [Function.comp_apply] at hj
    split at hj
    · simp [CertificateJob.claim] at hj
    · next hnot => simpa [hnot] using hj
  -- what is due was queued, each job once
  have hclaimed : (due.map fun j => j.claim lease).countP (fun j => j.isFor t r) ≤
      (s.jobs.rows.filter fun j => decide (j ∈ due)).countP
        fun j => j.isFor t r && j.status == .queued := by
    rw [countP_map, countP_eq_length_filter, countP_eq_length_filter]
    refine (subperm_of_subset (hnodup.filter _) fun j hj => ?_).length_le
    rcases mem_filter.1 hj with ⟨hj, hfor⟩
    have hfor' : j.isFor t r = true := hfor
    simp [(hdue j hj).1, (hdue j hj).2, hj, hfor']
  have hsplit := countP_eq_countP_filter_add s.jobs.rows
    (fun j => j.isFor t r && j.status == .queued) (fun j => decide (j ∈ due))
  unfold queuedCount at hrest ⊢
  omega

theorem held_next_le (hclaim : ∀ js, ev ≠ .claimDueJobs (.ok js))
    (hhead : ∀ j, ev = .processJob j → g.todo.head? = some j) (t r : Id) :
    (g.next ev).held t r ≤ g.held t r := by
  unfold Work.next
  split
  · next js => exact absurd rfl (hclaim js)
  · -- a waiting job is taken up
    next j =>
      have hj := hhead j rfl
      cases htodo : g.todo with
      | nil => simp [htodo] at hj
      | cons k ks =>
        rw [htodo] at hj
        cases hj
        simp only [Work.held, htodo, tail_cons, Option.toList_some, countP_cons,
          countP_nil]
        omega
  · -- a certificate is minted for the job in process
    split
    · next j hj =>
      simp only [Work.held, hj, Option.toList_some, Option.toList_none, countP_append,
        countP_cons, countP_nil]
      omega
    · exact le_refl _
  · -- the job in process has failed, or none is in process
    simp only [Work.held, Option.toList_none, countP_nil]
    omega
  · exact le_refl _
  · exact le_refl _

/-- The tokens of a request that are in the tables. -/
def Database.tokens (s : Database) (t r : Id) : Nat := s.pendingCount t r + s.queuedCount t r

theorem tokens_step (hcall : enrollCall call) (heff : Effect s ev s')
    (hproto : Enroll.Protocol call g ev)
    (hpend : ∀ x ∈ ev.approves?, ∀ st ∈ s.requestStatus? x.1 x.2, st = .pending)
    (hretry : ev.requeues? = none) (t r : Id) :
    s'.tokens t r + (g.next ev).held t r ≤ s.tokens t r + g.held t r := by
  have hpending := pendingCount_step heff hproto t r
  unfold tokens
  by_cases hclaim : ∃ rows, ev = .claimDueJobs (.ok rows)
  · rcases hclaim with ⟨rows, rfl⟩
    rcases hproto with ⟨rfl, -⟩
    have hq := queuedCount_claim heff t r
    have hheld : (Work.start.next (.claimDueJobs (.ok rows))).held t r
        = rows.countP fun j => j.isFor t r := by
      simp [Work.next, Work.held, Work.start]
    rw [hheld]
    omega
  have hheld : (g.next ev).held t r ≤ g.held t r := by
    refine held_next_le (fun js h => hclaim ⟨js, h⟩) ?_ t r
    rintro j rfl
    rcases hproto.2 with ⟨-, h⟩ | rfl
    · exact h
    · cases hcall
  cases jobs_step heff hproto with
  | same _ h =>
    have hq : s'.queuedCount t r = s.queuedCount t r := by
      unfold queuedCount
      rw [h]
    omega
  | updated job h =>
    have hst : job.status ≠ .queued := by
      intro h
      simp [Ev.requeues?, h] at hretry
    have hq := queuedCount_update hst h t r
    omega
  | recorded job rid cid h =>
    have hq := queuedCount_update (by simp [Enroll.completed]) h.jobs t r
    omega
  | claimed rows => exact absurd ⟨rows, rfl⟩ hclaim
  | approved t1 id1 jobID h =>
    have hq := queuedCount_approve h t r
    by_cases hreq : t1 = t ∧ id1 = r
    · -- the pending request's token becomes the job's
      rcases hreq with ⟨rfl, rfl⟩
      have hbefore := pendingCount_of_pending h.existed (hpend _ rfl)
      have hafter := pendingCount_approve h
      simp only [and_self, if_true] at hq
      omega
    · simp only [hreq, if_false] at hq
      omega

theorem jobCount_step (heff : Effect s ev s') (hproto : Enroll.Protocol call g ev)
    (hpend : ∀ x ∈ ev.approves?, ∀ st ∈ s.requestStatus? x.1 x.2, st = .pending) (t r : Id) :
    s'.jobCount t r + s'.pendingCount t r ≤ s.jobCount t r + s.pendingCount t r := by
  have hpending := pendingCount_step heff hproto t r
  rw [jobCount_eq, jobCount_eq]
  rcases origins_step heff hproto with h | ⟨t1, id1, jobID, rfl, h⟩
  · rw [h]
    omega
  rw [h, countP_append]
  by_cases hreq : t1 = t ∧ id1 = r
  · rcases hreq with ⟨rfl, rfl⟩
    have hbefore := pendingCount_of_pending (Approved.existed heff) (hpend _ rfl)
    have hafter := pendingCount_approve heff
    simp only [countP_cons, countP_nil, beq_self_eq_true, Bool.and_self, if_true]
    omega
  have hnot : (t1 == t && id1 == r) = false := by simpa using hreq
  simp only [countP_cons, countP_nil, hnot, Bool.false_eq_true, if_false]
  omega

theorem queuedCount_requeue (h : s'.jobs = s.jobs.update job.id job.write job.write_id)
    (hrow : ∀ row ∈ s.jobs.rows, row.id = job.id → row.isFor t r = false) :
    s'.queuedCount t r = s.queuedCount t r := by
  unfold queuedCount
  rw [h, Table.rows_update, countP_map]
  refine countP_congr fun k hk => ?_
  simp only [Function.comp_apply]
  split
  · next hid =>
    have hnot := hrow k hk hid
    have hnot' : (job.write k).isFor t r = false := hnot
    simp [hnot, hnot']
  · exact Iff.rfl

theorem requeues?_eq_some (h : ev.requeues? = some job) : ∃ res, ev = .updateJob job res := by
  cases ev with
  | updateJob job' res =>
    simp only [Ev.requeues?, Option.ite_none_right_eq_some, Option.some.injEq] at h
    exact ⟨res, by rw [h.2]⟩
  | _ => cases h

end Counts

theorem oneJob_of_no_jobs {s : Database} (h : s.jobs.rows = []) : OneJob s := by
  intro t r
  unfold jobCount pendingCount
  rw [h, countP_nil]
  split <;> omega

/-! ## Every run -/

/-- The tokens one thread holds. -/
def heldBy (t r : Id) (u : SysThread) : Nat := (work u.hist).held t r

/-- The tokens of a request in the tables and with the calls. -/
def allTokens (cfg : SysConfig) (t r : Id) : Nat :=
  cfg.store.tokens t r + (cfg.threads.map (heldBy t r)).sum

/-- The invariant: one job at most, and one token at most. -/
def OneToken (t r : Id) (cfg : SysConfig) : Prop :=
  cfg.store.jobCount t r + cfg.store.pendingCount t r ≤ 1 ∧ allTokens cfg t r ≤ 1

theorem length_mintedFor_le (cfg : SysConfig) (t r : Id) :
    (mintedFor cfg t r).length ≤ allTokens cfg t r := by
  have hsum : ∀ l : List SysThread,
      (l.flatMap fun th => ((work th.hist).minted.filter
        fun m => m.1.tenantID == t && m.1.requestID == r).map Prod.snd).length ≤
        (l.map (heldBy t r)).sum := by
    intro l
    induction l with
    | nil => simp
    | cons th l ih =>
      have hth : ((work th.hist).minted.filter
          fun m => m.1.tenantID == t && m.1.requestID == r).length ≤
          heldBy t r th := by
        rw [← countP_eq_length_filter]
        exact Nat.le_add_left _ _
      simp only [flatMap_cons, length_append, length_map, map_cons,
        sum_cons]
      omega
  exact (hsum cfg.threads).trans (Nat.le_add_left _ _)

section Run

variable {P : Platform}

theorem sound_enrollCalls : (enrollment fun c => enrollCall c).Sound
    fun c => (body P c).run := by
  refine sound_enrollment P ?_
  intro c hc
  cases c <;> trivial

theorem oneToken_step {cfg : SysConfig} {i : Nat} {e : Env} {th : SysThread} {ev : Ev}
    {s' : Database} {p : Prog Env Database Ev Call (Except Err Value)} {t r : Id}
    (hI : OneToken t r cfg) (happ : ApprovesPending cfg (.run i e))
    (hidle : RetriesIdle cfg (.run i e)) (hth : cfg.threads[i]? = some th)
    (hcall : enrollCall th.call) (hev : cfg.emits i e = some ev)
    (hok : Effect cfg.store ev s' ∧ Enroll.Protocol th.call (work th.hist) ev) :
    OneToken t r ⟨s', cfg.threads.set i ⟨th.toRecord.push ev, p⟩⟩ := by
  have hpend : ∀ x ∈ ev.approves?, ∀ st ∈ cfg.store.requestStatus? x.1 x.2, st = .pending :=
    fun x hx => happ x (by simpa [hev] using hx)
  have hjob := jobCount_step hok.1 hok.2 hpend t r
  have hone := hI.1
  refine ⟨hjob.trans hone, ?_⟩
  -- the calls' tokens change by this call's
  have hsum := sum_map_set (heldBy t r) hth ⟨th.toRecord.push ev, p⟩
  have hafter : heldBy t r ⟨th.toRecord.push ev, p⟩ = ((work th.hist).next ev).held t r := by
    simp [heldBy]
  have hbefore : heldBy t r th = (work th.hist).held t r := rfl
  have htokens : cfg.store.tokens t r + (cfg.threads.map (heldBy t r)).sum ≤ 1 := hI.2
  show s'.tokens t r + ((cfg.threads.set i ⟨th.toRecord.push ev, p⟩).map (heldBy t r)).sum ≤ 1
  by_cases hretry : ev.requeues? = none
  · have hstep := tokens_step hcall hok.1 hok.2 hpend hretry t r
    omega
  · -- a retry: its write is the only step that makes a token
    rcases Option.ne_none_iff_exists'.1 hretry with ⟨job, hjob'⟩
    have hidle' : ∀ row ∈ cfg.store.job? job.tenantID job.id, ∀ u ∈ cfg.threads,
        (work u.hist).held row.tenantID row.requestID = 0 :=
      hidle job (by simpa [hev] using hjob')
    rcases requeues?_eq_some hjob' with ⟨res, rfl⟩
    have hheld : ((work th.hist).next (.updateJob job res)).held t r ≤ (work th.hist).held t r :=
      held_next_le (by simp) (by simp) t r
    have hpending := pendingCount_step hok.1 hok.2 t r
    unfold tokens at htokens ⊢
    cases res with
    | error e =>
      have hs : s' = cfg.store := hok.1
      rw [hs]
      omega
    | ok _ =>
      rcases hok.1 with ⟨hex, hs'⟩
      rcases Option.isSome_iff_exists.1 hex with ⟨row, hrow⟩
      rcases job?_eq_some.1 hrow with ⟨hmem, hid, -⟩
      by_cases hfor : row.isFor t r = true
      · -- nobody holds a token of this request, and it has this one job
        simp only [CertificateJob.isFor, Bool.and_eq_true, beq_iff_eq] at hfor
        rcases hfor with ⟨rfl, rfl⟩
        have hzero : (cfg.threads.map (heldBy row.tenantID row.requestID)).sum = 0 := by
          refine sum_eq_zero fun n hn => ?_
          rcases mem_map.1 hn with ⟨u, hu, rfl⟩
          exact hidle' row hrow u hu
        have hqueued := queuedCount_le_jobCount s' row.tenantID row.requestID
        omega
      · -- the job belongs to another request
        have hq : s'.queuedCount t r = cfg.store.queuedCount t r := by
          refine queuedCount_requeue (by rw [hs']) ?_
          intro row' hmem' hid'
          have hrr : row' = row :=
            cfg.store.jobs.eq_of_key_eq hmem' hmem (hid'.trans hid.symm)
          rw [hrr]
          simpa using hfor
        omega

/-- In every run whose approvals meet pending requests and whose retries meet idle ones,
`ProcessJob` mints at most one certificate for a request. -/
theorem at_most_one_certificate (P : Platform) (db : Database) (hdb : OneJob db)
    (as : List SysAct) (hcalls : ∀ a ∈ as, a.Calls fun c => enrollCall c)
    (happ : AllMeet P ApprovesPending db as) (hidle : AllMeet P RetriesIdle db as) (t r : Id) :
    (mintedFor (runFrom P db as) t r).length ≤ 1 := by
  have hstart : OneToken t r (Config.init db) := by
    have hone := hdb t r
    have hqueued := queuedCount_le_jobCount db t r
    refine ⟨hone, ?_⟩
    show db.pendingCount t r + db.queuedCount t r + 0 ≤ 1
    omega
  have hend := (Spec.inv_exec (sound_enrollCalls (P := P)) (I := OneToken t r) ?_
    (Spec.tracked_init db) hstart hcalls (Config.meets_and _ happ hidle)).2
  · exact (length_mintedFor_le _ t r).trans hend.2
  intro cfg a cfg' hT hI hc hmove
  cases hmove with
  | idle => exact hI
  | spawn c p hop =>
    -- a call that begins holds nothing
    refine ⟨hI.1, ?_⟩
    have hzero : heldBy t r ⟨Config.fresh c cfg.store, p⟩ = 0 := rfl
    have hsum : ((cfg.threads ++ [(⟨Config.fresh c cfg.store, p⟩ : SysThread)]).map
        (heldBy t r)).sum = (cfg.threads.map (heldBy t r)).sum := by
      simp [hzero]
    show cfg.store.tokens t r + _ ≤ 1
    rw [hsum]
    exact hI.2
  | fork i e th c p q hth _ hstarts => exact hstarts.elim
  | step i e th ev s' p hth _ hev hok =>
    exact oneToken_step hI hc.1 hc.2 hth (hT th (mem_of_getElem? hth)).1 hev hok

end Run

/-! ## Two schedules of the sample deployment -/

namespace Sample

/-- Two approvals read the pending request before either writes; then the worker makes a
pass. -/
def approveTwice : List SysAct :=
  .spawn (.approveRequest admin 5 "") :: steps 0 6 10 ++
    .spawn (.approveRequest admin 5 "") :: steps 1 9 20 ++ steps 0 3 10 ++
    .spawn .once :: steps 2 24 30 ++ steps 2 15 40

/-- One approval, and a pass of the worker. -/
def approveOnce : List SysAct :=
  .spawn (.approveRequest admin 5 "") :: steps 0 9 10 ++ .spawn .once :: steps 1 24 30

end Sample

open Sample

set_option maxRecDepth 4000 in
/-- One approval and a pass of the worker mint one certificate. -/
theorem at_most_one_certificate_approved_once :
    (mintedFor (runFrom platform withRequest approveOnce) 1 5).length ≤ 1 ∧
      (mintedFor (runFrom platform withRequest approveOnce) 1 5).map
        IssuedCertificate.id = [30] := by
  refine ⟨?_, by decide⟩
  exact at_most_one_certificate platform withRequest (oneJob_of_no_jobs rfl)
    approveOnce (by decide) (by decide) (by decide) 1 5

set_option maxRecDepth 4000 in
/-- Two approvals that have both read the pending request make two jobs and two
certificates. -/
theorem two_certificates :
    ¬ ∀ (P : Platform) (db : Database), OneJob db → ∀ as : List SysAct,
      (∀ a ∈ as, a.Calls fun c => enrollCall c) → ∀ t r,
      (mintedFor (runFrom P db as) t r).length ≤ 1 := by
  intro h
  have hone := h platform withRequest (oneJob_of_no_jobs rfl) approveTwice
    (by decide) 1 5
  have htwo : (mintedFor (runFrom platform withRequest approveTwice)
      1 5).length = 2 := by
    decide
  omega

end Lcm
