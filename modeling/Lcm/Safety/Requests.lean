import Lcm.EnrollProtocol

/-!
# Can a rejected request produce a certificate?

`ApproveRequest` and `RejectRequest` check that the request is pending on the row they have
read, and write its new status in a later step. Two deciders that have both read the pending
row both write, and the later one wins.

* `rejected_never_issued`: in every run in which each decision is written while the request
  is still pending, a rejected request stays rejected and no certificate is minted for it.
* `rejected_then_approved`: without that, it may be approved after all.
* `jobs_of_approvals`: each approval that is committed has its job, and there are no others.
-/

namespace Lcm

open Conc Db Svc List Database

/-- The calls a rejection has to survive. -/
def decisionCall : Call → Bool
  | .approveRequest _ _ _ | .rejectRequest _ _ _ | .cancelJob _ _ | .retryJob _ _
  | .claimDueJobs _ _ _ | .processJob _ | .once => true
  | _ => false

/-- The status a tenant's request is stored with. -/
def Database.requestStatus? (s : Database) (t id : Id) : Option RequestStatus :=
  (s.request? t id).map CertificateRequest.status

/-- Every job belongs to a request that has been decided and not rejected. -/
def JobsDecided (s : Database) : Prop :=
  ∀ j ∈ s.jobs.rows, ∀ st ∈ s.requestStatus? j.tenantID j.requestID,
    st ≠ .pending ∧ st ≠ .rejected

instance (s : Database) : Decidable (JobsDecided s) := inferInstanceAs (Decidable (∀ _ ∈ _, _))

/-- The request whose decision the step writes, with its tenant. -/
def Ev.decides? : Ev → Option (Id × Id)
  | .approve t id _ _ => some (t, id)
  | .setRequestStatus t id _ _ => some (t, id)
  | _ => none

/-- A decision is written only while the request is stored as pending. -/
def DecidesPending (cfg : SysConfig) : SysAct → Prop
  | .spawn _ => True
  | .run i e => ∀ r ∈ (cfg.emits i e).bind Ev.decides?,
      ∀ st ∈ cfg.store.requestStatus? r.1 r.2, st = .pending

instance (cfg : SysConfig) : DecidablePred (DecidesPending cfg)
  | .spawn _ => .isTrue trivial
  | .run _ _ => inferInstanceAs (Decidable (∀ _ ∈ _, _))

/-- The job `ProcessJob` is called with. -/
def processes? : SysAct → Option CertificateJob
  | .spawn (.processJob job) => some job
  | _ => none

/-- `ProcessJob` is called with a job that `ClaimDueJobs` has returned. -/
def ProcessesClaimed (cfg : SysConfig) (a : SysAct) : Prop :=
  ∀ job ∈ processes? a, ∃ th ∈ cfg.threads, job ∈ (work th.hist).claimed

instance (cfg : SysConfig) (a : SysAct) : Decidable (ProcessesClaimed cfg a) :=
  inferInstanceAs (Decidable (∀ _ ∈ _, _))

/-- The certificates minted by `ProcessJob` for a request, in all calls so far. -/
def mintedFor (cfg : SysConfig) (t id : Id) : List IssuedCertificate :=
  cfg.threads.flatMap fun th =>
    ((work th.hist).minted.filter fun m => m.1.tenantID == t && m.1.requestID == id).map Prod.snd

variable {cfg : SysConfig} {id t : Id} {st : RequestStatus} {j : CertificateJob}

theorem mintedFor_eq_nil
    (h : ∀ th ∈ cfg.threads, ∀ m ∈ (work th.hist).minted, ¬ (m.1.tenantID = t ∧ m.1.requestID = id))
    : mintedFor cfg t id = [] := by
  simp only [mintedFor, flatMap_eq_nil_iff, map_eq_nil_iff, filter_eq_nil_iff,
    Bool.and_eq_true, beq_iff_eq]
  exact h

/-! ## What a step does to requests and jobs -/

/-- A job without what changes: its id, its tenant and its request. -/
def CertificateJob.origin (j : CertificateJob) : Id × Id × Id := (j.id, j.tenantID, j.requestID)

@[simp] theorem CertificateJob.origin_write (j old : CertificateJob) :
    (j.write old).origin = old.origin := rfl

def Database.origins (s : Database) : List (Id × Id × Id) := s.jobs.rows.map CertificateJob.origin

section Step

variable {call : Call} {g : Work} {s s' : Database} {ev : Ev}

theorem origins_update {f : CertificateJob → CertificateJob} (hf : ∀ j, (f j).id = j.id)
    (horigin : ∀ j, (f j).origin = j.origin) (h : s'.jobs = s.jobs.update id f hf) :
    s'.origins = s.origins := by
  unfold origins
  rw [h, Table.rows_update, map_map]
  refine map_congr_left fun j _ => ?_
  show (if j.id = id then f j else j).origin = j.origin
  split
  · exact horigin j
  · rfl

/-- What a step does to the jobs: nothing, or it rewrites the one it names, claims the due ones
or adds the one of an approval. -/
inductive JobStep (s s' : Database) : Ev → Prop where
  | same (ev : Ev) (h : s'.jobs = s.jobs) : JobStep s s' ev
  | updated (job : CertificateJob) (h : s'.jobs = s.jobs.update job.id job.write job.write_id) :
      JobStep s s' (.updateJob job (.ok ()))
  | recorded (job : CertificateJob) (requestID certID : Id) (h : Recorded job requestID certID s s') :
      JobStep s s' (.recordResult job requestID certID (.ok ()))
  | claimed (rows : List CertificateJob) (h : Claimed rows s s') :
      JobStep s s' (.claimDueJobs (.ok rows))
  | approved (t id jobID : Id) (h : Approved t id jobID s s') :
      JobStep s s' (.approve t id jobID (.ok ()))

theorem jobs_step (heff : Effect s ev s') (hproto : Enroll.Protocol call g ev) :
    JobStep s s' ev := by
  -- a call that fails changes nothing
  have hfailed : s' = s → JobStep s s' ev := fun h => .same ev (by rw [h])
  cases ev with
  | look | newID | genKey | order | audit | read | readIssuer | sign | processJob => exact hfailed heff
  | insertCertificate row r =>
    cases r with
    | error e => exact hfailed heff
    | ok _ => exact .same _ (Inserted.jobs heff)
  | setRequestStatus t id st r =>
    cases r with
    | error e => exact hfailed heff
    | ok _ =>
      rcases heff with ⟨-, a, b, rfl⟩
      exact .same _ rfl
  | updateJob job r =>
    cases r with
    | error e => exact hfailed heff
    | ok _ => exact .updated job (by rw [heff.2])
  | recordResult job rid cid r =>
    cases r with
    | error e => exact hfailed heff
    | ok _ => exact .recorded job rid cid heff
  | claimDueJobs r =>
    cases r with
    | error e => exact hfailed heff
    | ok rows => exact .claimed rows heff
  | approve t id jobID r =>
    cases r with
    | error e => exact hfailed heff
    | ok _ => exact .approved t id jobID heff
  | _ => exact hproto.elim

theorem origins_step (heff : Effect s ev s') (hproto : Enroll.Protocol call g ev) :
    s'.origins = s.origins ∨
      ∃ t id jobID, ev = .approve t id jobID (.ok ()) ∧
        s'.origins = s.origins ++ [(jobID, t, id)] := by
  cases jobs_step heff hproto with
  | same _ h =>
    left
    unfold origins
    rw [h]
  | updated job h => exact .inl (origins_update job.write_id job.origin_write h)
  | recorded job rid cid h =>
    exact .inl (origins_update (CertificateJob.write_id _) (CertificateJob.origin_write _) h.jobs)
  | claimed rows h =>
    rcases h.due with ⟨due, lease, -, -, -, hrows⟩
    left
    unfold origins
    rw [hrows, map_map]
    refine map_congr_left fun j _ => ?_
    show (if j ∈ due then j.claim lease else j).origin = j.origin
    split <;> rfl
  | approved t id jobID h =>
    rcases h.job with ⟨j, rfl, rfl, rfl, -, hins⟩
    refine .inr ⟨j.tenantID, j.requestID, j.id, rfl, ?_⟩
    unfold origins
    rw [(Table.insert?_eq_some hins).2, map_append]
    rfl

/-- The request a step moves, with its tenant and its new status. -/
def Ev.moves? : Ev → Option (Id × Id × RequestStatus)
  | .approve t id _ (.ok _) => some (t, id, .approved)
  | .setRequestStatus t id st (.ok _) => some (t, id, st)
  | .recordResult job rid _ (.ok _) => some (job.tenantID, rid, .issued)
  | _ => none

theorem requestStatus?_update {a b : Option String}
    (h : s'.requests = s.requests.update id (fun r => r.setStatus st a b) fun r => r.setStatus_id st a b)
    (t' id' : Id) :
    s'.requestStatus? t' id' = (s.requestStatus? t' id').map fun x => if id' = id then st else x := by
  unfold requestStatus? request?
  rw [h, Table.get?_update]
  by_cases hid : id' = id
  · subst hid
    cases s.requests.get? id' with
    | none => simp
    | some r =>
      by_cases ht : r.tenantID = t' <;> simp [Option.filter, ht, CertificateRequest.setStatus]
  · simp [hid, Function.comp_def]

theorem requestStatus?_step (heff : Effect s ev s') (hproto : Enroll.Protocol call g ev) :
    (ev.moves? = none ∧ s'.requests = s.requests) ∨
      ∃ t id st, ev.moves? = some (t, id, st) ∧ (s.request? t id).isSome ∧
        ∀ t' id', s'.requestStatus? t' id' =
          (s.requestStatus? t' id').map fun x => if id' = id then st else x := by
  -- a call that fails changes nothing
  have hfailed : ∀ {p : Prop}, s' = s → ev.moves? = none →
      (ev.moves? = none ∧ s'.requests = s.requests) ∨ p := fun h hm => .inl ⟨hm, by rw [h]⟩
  cases ev with
  | look | newID | genKey | order | audit | read | readIssuer | sign | processJob =>
    exact hfailed heff rfl
  | insertCertificate row r =>
    cases r with
    | error e => exact hfailed heff rfl
    | ok _ => exact .inl ⟨rfl, Inserted.requests heff⟩
  | setRequestStatus t id st r =>
    cases r with
    | error e => exact hfailed heff rfl
    | ok _ =>
      rcases heff with ⟨hex, a, b, rfl⟩
      exact .inr ⟨t, id, st, rfl, hex, fun t' id' => requestStatus?_update rfl t' id'⟩
  | updateJob job r =>
    cases r with
    | error e => exact hfailed heff rfl
    | ok _ =>
      rcases heff with ⟨-, rfl⟩
      exact .inl ⟨rfl, rfl⟩
  | recordResult job rid cid r =>
    cases r with
    | error e => exact hfailed heff rfl
    | ok _ =>
      rcases Recorded.requests heff with ⟨a, b, hreq⟩
      exact .inr ⟨job.tenantID, rid, .issued, rfl, Recorded.existed heff,
        fun t' id' => requestStatus?_update hreq t' id'⟩
  | claimDueJobs r =>
    cases r with
    | error e => exact hfailed heff rfl
    | ok rows => exact .inl ⟨rfl, Claimed.requests heff⟩
  | approve t id jobID r =>
    cases r with
    | error e => exact hfailed heff rfl
    | ok _ =>
      rcases Approved.requests heff with ⟨a, b, hreq⟩
      exact .inr ⟨t, id, .approved, rfl, Approved.existed heff,
        fun t' id' => requestStatus?_update hreq t' id'⟩
  | _ => exact hproto.elim

/-- The job is in the table, whatever its status. -/
def Database.HasJob (s : Database) (j : CertificateJob) : Prop := j.origin ∈ s.origins

theorem hasJob_step (heff : Effect s ev s') (hproto : Enroll.Protocol call g ev) (hj : s.HasJob j) :
    s'.HasJob j := by
  unfold HasJob at hj ⊢
  rcases origins_step heff hproto with h | ⟨t, id, jobID, -, h⟩
  · rw [h]
    exact hj
  · rw [h]
    exact mem_append_left _ hj

theorem JobsDecided.of_hasJob (hI : JobsDecided s) (hj : s.HasJob j)
    (hst : s.requestStatus? j.tenantID j.requestID = some st) : st ≠ .pending ∧ st ≠ .rejected := by
  rcases mem_map.1 hj with ⟨row, hrow, horigin⟩
  simp only [CertificateJob.origin, Prod.mk.injEq] at horigin
  rcases horigin with ⟨-, ht, hr⟩
  exact hI row hrow st (by rw [ht, hr]; exact hst)

theorem hasJob_of_claimed {rows : List CertificateJob} (h : Claimed rows s s') (hj : j ∈ rows) :
    s'.HasJob j := by
  rcases h.due with ⟨due, lease, rfl, -, hdue, hrows⟩
  rcases mem_map.1 hj with ⟨k, hk, rfl⟩
  have heff : Effect s (.claimDueJobs (.ok (due.map fun j => j.claim lease))) s' := h
  have hproto : Enroll.Protocol .once .start (.claimDueJobs (.ok (due.map fun j => j.claim lease))) :=
    ⟨rfl, .inl rfl⟩
  have horigins : s'.origins = s.origins := by
    rcases origins_step heff hproto with h | ⟨_, _, _, h, -⟩
    · exact h
    · cases h
  unfold HasJob
  rw [horigins]
  exact mem_map.2 ⟨k, (hdue k hk).1, rfl⟩

end Step

/-! ## One step -/

section Invariant

variable {call : Call} {g : Work} {s s' : Database} {ev : Ev}

theorem requestStatus?_isSome (h : (s.request? t id).isSome) :
    ∃ st, s.requestStatus? t id = some st := by
  rcases Option.isSome_iff_exists.1 h with ⟨r, hr⟩
  exact ⟨r.status, by simp [requestStatus?, hr]⟩

theorem request_tenant_unique {t' : Id} (h : s.requestStatus? t id = some st)
    (h' : (s.request? t' id).isSome) : t' = t := by
  rcases Option.map_eq_some_iff.1 h with ⟨r, hr, -⟩
  rcases Option.isSome_iff_exists.1 h' with ⟨r', hr'⟩
  rcases request?_eq_some.1 hr with ⟨hm, hid, ht⟩
  rcases request?_eq_some.1 hr' with ⟨hm', hid', ht'⟩
  have hrr : r = r' := s.requests.eq_of_key_eq hm hm' (hid.trans hid'.symm)
  rw [← ht, ← ht', hrr]

/-- The decision the step writes meets a pending request. -/
def MeetsPending (s : Database) (ev : Ev) : Prop :=
  ∀ r ∈ ev.decides?, ∀ st ∈ s.requestStatus? r.1 r.2, st = .pending

theorem moves_step (hI : JobsDecided s) (hproto : Enroll.Protocol call g ev)
    (hholds : ∀ j, Enroll.Holds call g j → s.HasJob j) (hpend : MeetsPending s ev)
    {st0 : RequestStatus} (hmove : ev.moves? = some (t, id, st))
    (hst : s.requestStatus? t id = some st0) :
    st0 ≠ .rejected ∧ (st = .rejected → st0 = .pending) ∧ st ≠ .pending := by
  cases ev with
  | approve t1 id1 jobID r =>
    cases r with
    | error e => cases hmove
    | ok _ =>
      cases hmove
      have hp : st0 = .pending := hpend (t, id) rfl st0 hst
      simp [hp]
  | setRequestStatus t1 id1 st1 r =>
    cases r with
    | error e => cases hmove
    | ok _ =>
      cases hmove
      have hp : st0 = .pending := hpend (t, id) rfl st0 hst
      rcases hproto with ⟨subj, reason, -, -, rfl⟩
      simp [hp]
  | recordResult job rid cid r =>
    cases r with
    | error e => cases hmove
    | ok _ =>
      cases hmove
      -- the job is in the table, so its request is not rejected
      rcases hproto with ⟨-, hown, rfl⟩
      have hne := hI.of_hasJob (hholds job hown) hst
      exact ⟨hne.2, by simp, by simp⟩
  | _ => cases hmove

theorem jobsDecided_step (hI : JobsDecided s) (heff : Effect s ev s')
    (hproto : Enroll.Protocol call g ev) (hholds : ∀ j, Enroll.Holds call g j → s.HasJob j)
    (hpend : MeetsPending s ev) : JobsDecided s' := by
  intro j hj st' hst'
  have horigin : j.origin ∈ s'.origins := mem_map_of_mem hj
  rcases requestStatus?_step heff hproto with ⟨hmove, h⟩ | ⟨t, id, st, hmove, hex, h⟩
  · -- no request is moved, so no job is added either
    have hst : s.requestStatus? j.tenantID j.requestID = some st' := by
      unfold requestStatus? request? at hst' ⊢
      rw [← h]
      exact hst'
    rcases origins_step heff hproto with ho | ⟨t, id, jobID, rfl, -⟩
    · exact hI.of_hasJob (show j.origin ∈ s.origins from ho ▸ horigin) hst
    · cases hmove
  rw [h] at hst'
  rcases Option.map_eq_some_iff.1 hst' with ⟨st0, hst0, rfl⟩
  by_cases hid : j.requestID = id
  · subst hid
    have ht := request_tenant_unique hst0 hex
    subst ht
    have hmv := moves_step hI hproto hholds hpend hmove hst0
    simp only [if_true]
    refine ⟨hmv.2.2, fun hrej => ?_⟩
    -- a request moved to rejected was pending, so it has no job, old or new
    have hp := hmv.2.1 hrej
    subst hp
    rcases origins_step heff hproto with ho | ⟨t, id, jobID, rfl, -⟩
    · have := hI.of_hasJob (show j.origin ∈ s.origins from ho ▸ horigin) hst0
      exact this.1 rfl
    · cases hmove
      cases hrej
  · simp only [hid, if_false]
    -- a job of another request is not the new one
    have hold : j.origin ∈ s.origins := by
      rcases origins_step heff hproto with ho | ⟨t', id', jobID, rfl, ho⟩
      · exact ho ▸ horigin
      rw [ho] at horigin
      rcases mem_append.1 horigin with ho | ho
      · exact ho
      cases hmove
      simp only [CertificateJob.origin, mem_singleton, Prod.mk.injEq] at ho
      exact absurd ho.2.2 hid
    exact hI.of_hasJob hold hst0

theorem rejected_step (hI : JobsDecided s) (heff : Effect s ev s')
    (hproto : Enroll.Protocol call g ev) (hholds : ∀ j, Enroll.Holds call g j → s.HasJob j)
    (hpend : MeetsPending s ev) (hrej : s.requestStatus? t id = some .rejected) :
    s'.requestStatus? t id = some .rejected := by
  rcases requestStatus?_step heff hproto with ⟨-, h⟩ | ⟨t1, id1, st1, hmove, hex, h⟩
  · unfold requestStatus? request? at hrej ⊢
    rw [h]
    exact hrej
  rw [h, hrej]
  by_cases hid : id = id1
  · -- the step would have to move a rejected request
    subst hid
    have ht := request_tenant_unique hrej hex
    subst ht
    exact absurd rfl (moves_step hI hproto hholds hpend hmove hrej).1
  · simp [hid]

end Invariant

/-! ## Every run -/

/-- What a call knows of jobs: those it has claimed, minted for or been called with are in the
table. -/
structure KnowsJobs (u : Record Database Ev Call) (s : Database) : Prop where
  holds : ∀ j, Enroll.Holds u.call (work u.hist) j → s.HasJob j
  minted : ∀ m ∈ (work u.hist).minted, s.HasJob m.1

/-- If the call is a `RejectRequest` that has rejected, its request is stored as rejected. -/
def KeepsRejected (u : Record Database Ev Call) (s : Database) : Prop :=
  ∀ subj id reason, u.call = .rejectRequest subj id reason → (work u.hist).rejected = true →
    s.requestStatus? subj.tenantID id = some .rejected

section Run

variable {P : Platform}

theorem sound_decisionCalls : (enrollment fun c => decisionCall c).Sound
    fun c => (body P c).run := by
  refine sound_enrollment P ?_
  intro c hc
  cases c <;> trivial

theorem knowsJobs_push {u : Record Database Ev Call} {s s' : Database} {ev : Ev}
    (h : KnowsJobs u s) (heff : Effect s ev s')
    (hproto : Enroll.Protocol u.call (work u.hist) ev) : KnowsJobs (u.push ev) s' where
  holds j hj := by
    rw [Record.push_hist, work_push, Record.push_call] at hj
    rcases hj with hj | hj
    · rcases ((work u.hist).steps ev).claimed with hc | ⟨js, rfl, hc⟩
      · rw [hc] at hj
        exact hasJob_step heff hproto (h.holds j (.inl hj))
      · -- the claim itself
        rw [hc] at hj
        exact hasJob_of_claimed heff hj
    · exact hasJob_step heff hproto (h.holds j (.inr hj))
  minted m hm := by
    rw [Record.push_hist, work_push] at hm
    rcases ((work u.hist).steps ev).minted with hn | ⟨j, row, rfl, hmay, hn⟩
    · rw [hn] at hm
      exact hasJob_step heff hproto (h.minted m hm)
    rw [hn] at hm
    rcases mem_append.1 hm with hm | hm
    · exact hasJob_step heff hproto (h.minted m hm)
    · -- the certificate that has just been stored is for a job the call holds
      rcases mem_singleton.1 hm with rfl
      rcases id hproto with ⟨k, hk, hown⟩
      rw [hmay] at hk
      cases hk
      exact hasJob_step heff hproto (h.holds j hown)

theorem rejection_pool_step {i : Nat} {e : Env} {th : SysThread} {ev : Ev} {s' : Database}
    (hpend : DecidesPending cfg (.run i e)) (hth : cfg.threads[i]? = some th)
    (hev : cfg.emits i e = some ev)
    (hok : Effect cfg.store ev s' ∧ Enroll.Protocol th.call (work th.hist) ev)
    (hI : JobsDecided cfg.store) (hL : ∀ u ∈ cfg.threads, KnowsJobs u.toRecord cfg.store) :
    JobsDecided s' ∧ (KnowsJobs (th.toRecord.push ev) s' ∧
      ∀ u ∈ cfg.threads, KnowsJobs u.toRecord s') ∧
      ∀ t id, cfg.store.requestStatus? t id = some .rejected →
        s'.requestStatus? t id = some .rejected := by
  have hmeets : MeetsPending cfg.store ev := by
    intro r hr
    exact hpend r (by simpa [hev] using hr)
  have hown := hL th (mem_of_getElem? hth)
  refine ⟨jobsDecided_step hI hok.1 hok.2 hown.holds hmeets, ⟨?_, ?_⟩, ?_⟩
  · exact knowsJobs_push hown hok.1 hok.2
  · intro u hu
    have hu := hL u hu
    exact ⟨fun j hj => hasJob_step hok.1 hok.2 (hu.holds j hj),
      fun m hm => hasJob_step hok.1 hok.2 (hu.minted m hm)⟩
  · intro t id hrej
    exact rejected_step hI hok.1 hok.2 hown.holds hmeets hrej

theorem knowsJobs_spawn {c : Call} (hjobs : ProcessesClaimed cfg (.spawn c))
    (hL : ∀ u ∈ cfg.threads, KnowsJobs u.toRecord cfg.store) :
    KnowsJobs (Config.fresh c cfg.store) cfg.store where
  holds j hj := by
    rcases hj with hj | hj
    · cases hj
    obtain rfl : c = _ := hj
    rcases hjobs j rfl with ⟨th, hth, hclaimed⟩
    exact (hL th hth).holds j (.inl hclaimed)
  minted m hm := by cases hm

theorem rejection_exec {db : Database} (hdb : JobsDecided db) {as : List SysAct}
    (hcalls : ∀ a ∈ as, a.Calls fun c => decisionCall c)
    (hjobs : AllMeet P ProcessesClaimed db as) (hpend : AllMeet P DecidesPending db as) :
    JobsDecided (runFrom P db as).store ∧ ∀ u ∈ (runFrom P db as).threads,
      KnowsJobs u.toRecord (runFrom P db as).store ∧
        KeepsRejected u.toRecord (runFrom P db as).store := by
  refine Spec.modular_exec (sound_decisionCalls (P := P)) (I := JobsDecided)
    (L := fun u s => KnowsJobs u s ∧ KeepsRejected u s) ?_ ?_ ?_ (Spec.tracked_init db) hdb ?_
    hcalls (Config.meets_and _ hjobs hpend)
  · intro cfg c hc _ _ hL
    refine ⟨knowsJobs_spawn hc.1 fun u hu => (hL u hu).1, ?_⟩
    intro subj id reason _ h
    cases h
  · intro cfg i e th c _ _ _ hstart
    exact hstart.elim
  · intro cfg i e th ev s' hc hth _ hev hok hI hL
    rcases rejection_pool_step hc.2 hth hev hok hI fun u hu => (hL u hu).1 with
      ⟨hI', ⟨hown, hothers⟩, hrej⟩
    refine ⟨hI', ⟨hown, ?_⟩, fun u hu => ⟨hothers u hu, ?_⟩⟩
    · -- its own step: it had rejected before, or this is the step that does
      intro subj id reason hcall hdone
      rw [Record.push_hist, work_push] at hdone
      rcases ((work th.hist).steps ev).rejected with h | ⟨t1, id1, st1, rfl⟩
      · rw [h] at hdone
        exact hrej _ _ ((hL th (mem_of_getElem? hth)).2 subj id reason hcall hdone)
      rcases hok with ⟨⟨hex, a, b, rfl⟩, subj', reason', hcall', rfl, rfl⟩
      have heq : Call.rejectRequest subj id reason = .rejectRequest subj' id1 reason' :=
        hcall.symm.trans hcall'
      cases heq
      rcases requestStatus?_isSome hex with ⟨st, hst⟩
      rw [requestStatus?_update rfl, hst]
      simp
    · intro subj id reason hcall hdone
      exact hrej _ _ ((hL u hu).2 subj id reason hcall hdone)
  · intro u hu
    cases hu

/-- Once `RejectRequest` has returned without an error, the request stays rejected and has no
certificate, in every run in which decisions are written on pending requests only. -/
theorem rejected_never_issued (P : Platform) (db : Database) (hdb : JobsDecided db)
    (as bs : List SysAct) (hcalls : ∀ a ∈ as ++ bs, a.Calls fun c => decisionCall c)
    (hjobs : AllMeet P ProcessesClaimed db (as ++ bs))
    (hpend : AllMeet P DecidesPending db (as ++ bs))
    (th : SysThread) (hth : th ∈ (runFrom P db as).threads) (subj : Subjects) (id : Id)
    (reason : String) (hcall : th.call = .rejectRequest subj id reason) (v : Value)
    (hret : Returned th v) :
    mintedFor (runFrom P db (as ++ bs)) subj.tenantID id = [] ∧
      (runFrom P db (as ++ bs)).store.requestStatus? subj.tenantID id ≠ some .approved ∧
      (runFrom P db (as ++ bs)).store.requestStatus? subj.tenantID id ≠ some .issued := by
  rcases (Config.meets_append _).1 hjobs with ⟨hjobs₁, hjobs₂⟩
  rcases (Config.meets_append _).1 hpend with ⟨hpend₁, hpend₂⟩
  obtain ⟨hcalls₁, hcalls₂⟩ := forall_mem_append.1 hcalls
  have htracked : (enrollment fun c => decisionCall c).Tracked (runFrom P db as) :=
    Spec.tracked_exec sound_decisionCalls (Spec.tracked_init db) hcalls₁
  rcases rejection_exec hdb hcalls₁ hjobs₁ hpend₁ with ⟨hmid, hknown⟩
  -- at the return the request is rejected
  have hdone := (htracked.post_of_result hth hret).rejected subj id reason v hcall rfl
  have hrej := (hknown th hth).2 subj id reason hcall hdone
  -- and every later step keeps it so
  have hend := Spec.modular_exec (sound_decisionCalls (P := P))
    (I := fun s => JobsDecided s ∧ s.requestStatus? subj.tenantID id = some .rejected)
    (L := KnowsJobs) ?_ ?_ ?_ htracked ⟨hmid, hrej⟩ (fun u hu => (hknown u hu).1) hcalls₂
    (Config.meets_and _ hjobs₂ hpend₂)
  · unfold runFrom
    rw [Config.exec_append]
    rcases hend with ⟨⟨hI, hst⟩, hL⟩
    refine ⟨mintedFor_eq_nil ?_, fun h => ?_, fun h => ?_⟩
    · -- a certificate would need a job, and a rejected request has none
      rintro u hu m hm ⟨ht, hr⟩
      have hne := hI.of_hasJob ((hL u hu).minted m hm) (by rw [ht, hr]; exact hst)
      exact hne.2 rfl
    · cases hst.symm.trans h
    · cases hst.symm.trans h
  · intro cfg c hc _ _ hL
    exact knowsJobs_spawn hc.1 hL
  · intro cfg i e th c _ _ _ hstart
    exact hstart.elim
  · intro cfg i e th ev s' hc hth _ hev hok hI hL
    rcases rejection_pool_step hc.2 hth hev hok hI.1 hL with ⟨hI', ⟨hown, hothers⟩, hrej⟩
    exact ⟨⟨hI', hrej _ _ hI.2⟩, hown, hothers⟩

end Run

/-! ## Two schedules of the sample deployment -/

namespace Sample

/-- An approval has read the pending request; then a rejection runs from its arrival to its
return. -/
def rejectDuringApproval : List SysAct :=
  .spawn (.approveRequest admin 5 "") :: steps 0 6 10 ++
    .spawn (.rejectRequest admin 5 "") :: steps 1 7 20

/-- A rejection runs from its arrival to its return. -/
def rejectAlone : List SysAct := .spawn (.rejectRequest admin 5 "") :: steps 0 7 20

def approveThenWork : List SysAct :=
  .spawn (.approveRequest admin 5 "") :: steps 1 9 30 ++ .spawn .once :: steps 2 30 40

end Sample

open Sample

set_option maxRecDepth 4000 in
/-- An approval that begins after the rejection is refused, and the worker finds no job. -/
theorem rejected_never_issued_after_approval :
    mintedFor (runFrom platform withRequest
      (rejectAlone ++ approveThenWork)) 1 5 = [] := by
  have hdone : outcome? (runFrom platform withRequest rejectAlone) 0
      = some (.rejectRequest admin 5 "",
        .request (requestRow.setStatus .rejected (some "ann") none)) := by
    decide
  rcases returned_of_outcome? hdone with ⟨th, hth, hcall, hret⟩
  exact (rejected_never_issued platform withRequest (by decide) rejectAlone
    approveThenWork (by decide) (by decide) (by decide) th hth admin 5 "" hcall _
    hret).1

set_option maxRecDepth 4000 in
/-- An approval that has read the request before a rejection and writes after the rejection
has returned leaves the request approved. -/
theorem rejected_then_approved :
    ¬ ∀ (P : Platform) (db : Database), JobsDecided db → ∀ (as bs : List SysAct),
      (∀ a ∈ as ++ bs, a.Calls fun c => decisionCall c) →
      AllMeet P ProcessesClaimed db (as ++ bs) →
      ∀ th ∈ (runFrom P db as).threads, ∀ subj id reason,
      th.call = .rejectRequest subj id reason → ∀ v, Returned th v →
      mintedFor (runFrom P db (as ++ bs)) subj.tenantID id = [] ∧
        (runFrom P db (as ++ bs)).store.requestStatus? subj.tenantID id ≠ some .approved ∧
        (runFrom P db (as ++ bs)).store.requestStatus? subj.tenantID id ≠ some .issued := by
  intro h
  have happroved : (runFrom platform withRequest
      (rejectDuringApproval ++ steps 0 1 30)).store.requestStatus? 1 5
      = some .approved := by
    decide
  have hdone : outcome? (runFrom platform withRequest rejectDuringApproval) 1
      = some (.rejectRequest admin 5 "",
        .request (requestRow.setStatus .rejected (some "ann") none)) := by
    decide
  rcases returned_of_outcome? hdone with ⟨th, hth, hcall, hret⟩
  have hend := h platform withRequest (by decide) rejectDuringApproval
    (steps 0 1 30) (by decide) (by decide) th hth admin 5 "" hcall _ hret
  exact hend.2.1 happroved

/-! ## Approvals and jobs -/

/-- The step adds the job. -/
def Ev.adds (o : Id × Id × Id) : Ev → Bool
  | .approve t id jobID (.ok _) => (jobID, t, id) == o
  | _ => false

theorem count_origins_step {call : Call} {g : Work} {s s' : Database} {ev : Ev}
    (heff : Effect s ev s') (hproto : Enroll.Protocol call g ev) (o : Id × Id × Id) :
    s'.origins.count o = s.origins.count o + [ev].countP (Ev.adds o) := by
  rcases origins_step heff hproto with h | ⟨t, id, jobID, rfl, h⟩
  · have hadds : ev.adds o = false := by
      unfold Ev.adds
      split
      · -- an approval adds its job
        rcases Approved.job heff with ⟨j, -, -, -, -, hins⟩
        have hlen := congrArg length h
        simp [origins, (Table.insert?_eq_some hins).2] at hlen
      · rfl
    simp [h, hadds]
  · rw [h, count_append]
    rfl

/-- Whatever deciders and workers do at once: beside the jobs that were there, there is one job for
each approval that has been committed, and no other. -/
theorem jobs_of_approvals {P : Platform} {db : Database} {as : List SysAct}
    (hcalls : ∀ a ∈ as, a.Calls fun c => decisionCall c) (o : Id × Id × Id) :
    (runFrom P db as).store.origins.count o = db.origins.count o +
      ((runFrom P db as).records.map fun u => u.hist.countP (Ev.adds o)).sum := by
  refine Spec.records_exec (sound_decisionCalls (P := P)) (I := fun us s => s.origins.count o =
      db.origins.count o + (us.map fun u => u.hist.countP (Ev.adds o)).sum) ?_ ?_
    (Spec.tracked_init db) rfl hcalls (Config.meets_all _ fun _ _ => trivial)
  · intro us c s h
    simp [h]
  intro cfg i e th ev s' _ hth _ _ hok h
  have hsum := sum_map_set (fun u => u.hist.countP (Ev.adds o)) (Config.records_getElem? hth)
    (th.toRecord.push ev)
  have hcount := count_origins_step hok.1 hok.2 o
  rw [Record.push_hist, countP_append] at hsum
  omega

set_option maxRecDepth 4000 in
/-- An approval, and its job. -/
theorem jobs_of_approvals_one :
    let cfg := runFrom platform withRequest (.spawn (.approveRequest admin 5 "") :: steps 0 9 30)
    cfg.store.origins = [(30, 1, 5)] ∧ cfg.store.origins.count (30, 1, 5) =
      0 + (cfg.records.map fun u => u.hist.countP (Ev.adds (30, 1, 5))).sum :=
  ⟨by decide, jobs_of_approvals (by decide) _⟩

end Lcm
