import Lcm.Effects

/-!
# The protocol of the enrollment calls

Deciders read a request and write its status in a later step; the worker claims jobs and
processes them one after the other, each with at most one certificate. `Work` is what such a
call has done so far, read off its events; `Enroll.Protocol` says which event may come next.

* `enrollment P ops` is the specification of the calls `ops`.
* `sound_enrollment`: every enrollment call meets it, whatever the other calls do.
-/

namespace Lcm

open Conc Db Svc Issue

variable (P : Platform)

/-! ## What a call has done -/

/-- What an enrollment call has done so far. -/
structure Work where
  /-- the jobs it has claimed -/
  claimed : List CertificateJob
  /-- those of them it has not taken up yet -/
  todo : List CertificateJob
  /-- the job it has taken up last -/
  current : Option CertificateJob
  /-- the same, as long as its certificate may still be minted -/
  mayMint : Option CertificateJob
  /-- the certificates it has stored, each with its job -/
  minted : List (CertificateJob × IssuedCertificate)
  /-- it has rejected its request -/
  rejected : Bool
  /-- it has written a job -/
  wrote : Bool

namespace Work

/-- Nothing done yet. -/
def start : Work := ⟨[], [], none, none, [], false, false⟩

/-- One more event. -/
def next (g : Work) : Ev → Work
  | .claimDueJobs (.ok js) => { g with claimed := js, todo := js }
  | .processJob j => { g with todo := g.todo.tail, current := some j, mayMint := some j }
  | .insertCertificate row (.ok _) =>
    match g.mayMint with
    | some j => { g with minted := g.minted ++ [(j, row)], mayMint := none }
    | none => g
  | .updateJob _ r => { g with mayMint := none, wrote := g.wrote || r.isOk }
  | .setRequestStatus _ _ _ (.ok _) => { g with rejected := true }
  | _ => g

/-- Which events change what. -/
structure Steps (g : Work) (ev : Ev) (g' : Work) : Prop where
  claimed : g'.claimed = g.claimed ∨ ∃ js, ev = .claimDueJobs (.ok js) ∧ g'.claimed = js
  minted : g'.minted = g.minted ∨ ∃ j row, ev = .insertCertificate row (.ok ()) ∧
    g.mayMint = some j ∧ g'.minted = g.minted ++ [(j, row)]
  wrote : g'.wrote = g.wrote ∨ ∃ job, ev = .updateJob job (.ok ())
  rejected : g'.rejected = g.rejected ∨ ∃ t id st, ev = .setRequestStatus t id st (.ok ())

theorem steps (g : Work) (ev : Ev) : g.Steps ev (g.next ev) := by
  unfold next
  split
  case h_3 => split <;> constructor <;> simp_all
  case h_4 job r => cases r <;> constructor <;> simp [Except.isOk, Except.toBool]
  all_goals constructor <;> simp

end Work

/-- What an enrollment call has done by the end of its events. -/
def work (hist : List Ev) : Work := hist.foldl Work.next .start

@[simp] theorem work_nil : work [] = .start := rfl

@[simp] theorem work_push (hist : List Ev) (ev : Ev) :
    work (hist ++ [ev]) = (work hist).next ev := by
  simp [work, List.foldl_append]

def Call.OnRequests : Call → Prop
  | approveRequest _ _ _ | rejectRequest _ _ _ | cancelJob _ _ | retryJob _ _
  | claimDueJobs _ _ _ | processJob _ | once => True
  | _ => False

/-! ## The protocol -/

namespace Enroll

/-- The call has claimed the job, or has been called with it. -/
def Holds (call : Call) (g : Work) (j : CertificateJob) : Prop :=
  j ∈ g.claimed ∨ call = .processJob j

/-- The event may be the next one of the call. -/
def Protocol (call : Call) (g : Work) : Ev → Prop
  | .look | .newID _ | .genKey _ | .order _ _ _ | .audit _ | .read | .readIssuer _ | .sign _ _ => True
  | .claimDueJobs _ =>
    g = .start ∧ (call = .once ∨ ∃ now lease limit, call = .claimDueJobs now lease limit)
  | .processJob j =>
    Holds call g j ∧ (call = .once ∧ g.todo.head? = some j ∨ call = .processJob j)
  | .insertCertificate _ _ => ∃ j, g.mayMint = some j ∧ Holds call g j
  | .recordResult job requestID _ _ =>
    g.current = some job ∧ Holds call g job ∧ requestID = job.requestID
  | .updateJob job _ =>
    (job.status = .failed ∨ job.status = .queued ∧ ∃ subj id, call = .retryJob subj id) ∧
      ∀ subj id, call = .cancelJob subj id → job.tenantID = subj.tenantID ∧ job.id = id
  | .approve t id _ _ => ∃ subj reason, call = .approveRequest subj id reason ∧ t = subj.tenantID
  | .setRequestStatus t id st _ =>
    ∃ subj reason, call = .rejectRequest subj id reason ∧ t = subj.tenantID ∧ st = .rejected
  | _ => False

/-- What is known when the call returns. -/
structure Finish (call : Call) (g : Work) (r : Except Err Value) : Prop where
  rejected : ∀ subj id reason v, call = .rejectRequest subj id reason → r = .ok v →
    g.rejected = true
  cancelled : ∀ subj id v, call = .cancelJob subj id → r = .ok v → g.wrote = true

/-- The monitor of an enrollment call. -/
def monitor (call : Call) : Monitor Work Env Database Ev Call where
  next := Work.next
  ok g _ s ev s' := Effect s ev s' ∧ Protocol call g ev
  starts _ _ := False

end Enroll

/-- The specification of the enrollment calls `ops`. -/
def enrollment (ops : Call → Prop) : Spec Work Env Database Ev Call (Except Err Value) where
  ops := ops
  mon := Enroll.monitor
  start _ := .start
  post := Enroll.Finish

variable {Q : Work → Except Err Unit → Prop} {job : CertificateJob} {call : Call}

namespace Enroll

theorem ignores_silent (call : Call) : (monitor call).Ignores Ev.Silent where
  next_eq g e he := by cases e <;> first | rfl | exact he.elim
  ok_self g _ s e he := by
    refine ⟨effect_quiet he, ?_⟩
    cases e <;> trivial

theorem ignores_quiet (call : Call) : (monitor call).Ignores Ev.Quiet where
  next_eq g e he := (ignores_silent call).next_eq g e he.silent
  ok_self g i s e he := (ignores_silent call).ok_self g i s e he.silent

/-! ## Minting for a job -/

section Mint

variable {P} {call : Call} {g : Work}

theorem yields_mintKey {certID : Id} {req : MintReq} (hd : req.deliverKey = false) :
    Yields (fun km => km.keyPEM = "") (mintKey P certID req) := by
  unfold mintKey
  split
  · split
    · exact yields_fail _
    split
    · exact yields_fail _
    · exact yields_pure rfl
  · refine yields_bind_any fun priv => yields_bind_any fun pem => yields_bind_any fun blob => ?_
    exact yields_pure (by simp [hd])

theorem yields_mintPrepare (subj : Subjects) (issuer : Issuer) (sid : Csr.SPIFFEID)
    (req : MintReq) (hd : req.deliverKey = false) :
    Yields (fun p => p.keyPEM = "") (mintPrepare P subj issuer sid req) := by
  unfold mintPrepare
  split
  · refine yields_bind_any fun caRow => yields_bind_any fun ⟨key, caCert⟩ => ?_
    refine yields_bind_any fun certID => yields_bind (yields_mintKey hd) fun km hkm => ?_
    refine yields_bind_any fun now => yields_bind_any fun serial => ?_
    split
    · exact yields_fail _
    · refine yields_bind_any fun nonce => yields_bind_any fun der => yields_bind_any fun b => ?_
      exact yields_pure hkm
  · exact yields_fail _

theorem wp_issue {subj : Subjects} {input : IssueInput} (job : CertificateJob)
    (hd : input.deliverKey = false) (hmay : g.mayMint = some job) (hown : Holds call g job)
    {Q : Work → Except Err Bundle → Prop} (herr : ∀ e, Q g (.error e))
    (hok : ∀ row b, Q { g with minted := g.minted ++ [(job, row)], mayMint := none } (.ok b)) :
    (monitor call).wp (issue P subj input).run Q g := by
  have hq := ignores_quiet call
  refine wp_only_bind hq (quiet_resolveIssuer P _ _) herr fun ⟨issuer, sid⟩ => ?_
  refine wp_only_bind hq (quiet_entitled P _ _ _) herr fun _ => ?_
  refine wp_only_bind_yields (ignores_silent call) (silent_mintPrepare P _ _ _ _)
    (yields_mintPrepare subj issuer sid (issueReq input) hd) herr fun p hp => ?_
  rw [Svc.wp_bind]
  refine wp_repo_cases ?_ herr ?_
  · exact fun e s => ⟨effect_storeCertificate _ _ _ e s, job, hmay, hown⟩
  rintro ⟨⟩
  show (monitor call).wp _ _ (g.next (.insertCertificate p.row (.ok ())))
  simp only [Work.next, hmay]
  refine wp_returns_bind hq (quiet_emit _) (returns_ask (R := fun _ => True) fun _ => trivial)
    fun _ _ => ?_
  -- nothing to deliver
  have hdeliver : deliver p.keyPEM (issueReq input).retainKey p.row = pure p.row := by
    simp [deliver, hp]
  rw [hdeliver]
  refine wp_returns_bind hq (only_pure p.row) (returns_pure (R := fun _ => True) trivial)
    fun row _ => ?_
  refine wp_returns_bind hq (quiet_permissionsOn _ _) (returns_permissionsOn _ _)
    fun perms _ => ?_
  refine wp_returns_bind hq (quiet_certView _ _) (returns_certView _ _) fun v _ => ?_
  exact hok p.row _

end Mint

/-! ## The worker -/

section Worker

variable {P} {call : Call} {g : Work}

theorem wp_failJob {msg : String} (hworker : ∀ subj id, call ≠ .cancelJob subj id)
    (hok : ∀ w, Q { g with mayMint := none, wrote := w } (.ok ())) :
    (monitor call).wp (failJob job msg).run Q g := by
  unfold failJob
  rw [Svc.wp_bind, wp_attempt]
  have hrest : ∀ w, (monitor call).wp (emit ⟨job.tenantID, .enrollmentRefused, "system",
      "system", some job.id, .failed, msg⟩).run Q { g with mayMint := none, wrote := w } :=
    fun w => wp_returns (ignores_quiet call) (quiet_emit _)
      (returns_ask (R := fun _ => True) fun _ => trivial) fun _ _ => hok w
  refine wp_repo_cases ?_ (fun _ => hrest _) fun _ => hrest _
  exact fun e s => ⟨effect_updateJob _ e s, .inl rfl, fun subj id h => absurd h (hworker subj id)⟩

theorem returns_getRequest (t id : Id) :
    Returns (fun r => ∀ q, r = .ok q → q.id = id) (attempt (fetch (Sql.getRequest t id))) := by
  refine Prog.Yields.bind (R := fun r => ∀ q, r = .ok q → q.id = id) ?_ ?_
  · intro e s q hq
    have hrow := found_eq_ok.1 (transact_query_ok hq)
    exact (Database.request?_eq_some.1 hrow).2.1
  · exact fun r hr => ⟨r, rfl, hr⟩

theorem wp_record {r : CertificateRequest} {certID : Id} (hcur : g.current = some job)
    (hown : Holds call g job) (hr : r.id = job.requestID) {f : Except Err Unit × Bool → Svc Unit}
    (hf : ∀ x, (monitor call).wp (f x).run Q g) :
    (monitor call).wp (recordResult job r certID >>= f).run Q g := by
  intro e s
  refine ⟨⟨effect_recordResult job r certID e s, hcur, hown, hr⟩, ?_⟩
  exact hf _

theorem wp_processJob (hown : Holds call g job)
    (hturn : call = .once ∧ g.todo.head? = some job ∨ call = .processJob job)
    (hok : ∀ g', g'.todo = g.todo.tail → g'.claimed = g.claimed → Q g' (.ok ())) :
    (monitor call).wp (processJob P job).run Q g := by
  have hq := ignores_quiet call
  have hworker : ∀ subj id, call ≠ .cancelJob subj id := by
    rcases hturn with ⟨rfl, -⟩ | rfl <;> simp
  intro e s
  refine ⟨⟨rfl, hown, hturn⟩, ?_⟩
  show (monitor call).wp _ _
    { g with todo := g.todo.tail, current := some job, mayMint := some job }
  refine wp_returns_bind hq (only_attempt (quiet_fetch (Sql.readOnly_getRequest _ _)))
    (returns_getRequest _ _) fun r hr => ?_
  split
  · exact wp_failJob hworker fun _ => hok _ rfl rfl
  rename_i q
  have hq' : q.id = job.requestID := hr q rfl
  unfold processRequest
  rw [Svc.wp_bind, wp_attempt]
  refine wp_issue job rfl rfl ?_ ?_ ?_
  · exact hown
  · exact fun e => wp_failJob hworker fun _ => hok _ rfl rfl
  intro row b
  refine wp_record rfl ?_ hq' fun ⟨res, ran⟩ => ?_
  · exact hown
  cases res with
  | error e => exact wp_failJob hworker fun _ => hok _ rfl rfl
  | ok u =>
    exact wp_returns hq (quiet_emit _) (returns_ask (R := fun _ => True) fun _ => trivial)
      fun _ _ => hok _ rfl rfl

theorem wp_processAll {Q : Work → Except Err Nat → Prop} (hok : ∀ g n, Q g (.ok n))
    (js : List CertificateJob) (n : Nat) (g : Work) (htodo : g.todo = js)
    (hclaimed : ∀ j ∈ js, j ∈ g.claimed) : (monitor .once).wp (processAll P js n).run Q g := by
  induction js generalizing n g with
  | nil => exact hok g n
  | cons j js ih =>
    unfold processAll
    rw [Svc.wp_bind, wp_attempt]
    refine wp_processJob (.inl (hclaimed j List.mem_cons_self)) (.inl ⟨rfl, by simp [htodo]⟩) ?_
    intro g' htodo' hclaimed'
    refine ih (n + 1) g' (by simp [htodo', htodo]) fun k hk => ?_
    rw [hclaimed']
    exact hclaimed k (List.mem_cons_of_mem j hk)

end Worker

/-! ## The calls -/

theorem finish_of_ne {g : Work} {r : Except Err Value}
    (hr : ∀ subj id reason, call ≠ .rejectRequest subj id reason)
    (hc : ∀ subj id, call ≠ .cancelJob subj id) : Finish call g r where
  rejected subj id reason _ h := absurd h (hr subj id reason)
  cancelled subj id _ h := absurd h (hc subj id)

theorem finish_error {g : Work} (e : Err) : Finish call g (.error e) where
  rejected _ _ _ _ _ h := by cases h
  cancelled _ _ _ _ h := by cases h

theorem wp_once : (monitor .once).wp (body P .once).run (Finish .once) .start := by
  have hend : ∀ g r, Finish .once g r := fun g r => finish_of_ne (by simp) (by simp)
  unfold body once
  rw [Svc.wp_bind]
  refine wp_only_bind (ignores_quiet _) quiet_now (fun e => hend _ _) fun now => ?_
  rw [Svc.wp_bind]
  refine wp_repo_cases ?_ (fun e => hend _ _) fun js => ?_
  · exact fun e s => ⟨effect_claimDueJobs _ _ _ e s, rfl, .inl rfl⟩
  · exact wp_processAll (fun g n => hend _ _) js 0 _ rfl fun j hj => hj

theorem wp_claimDueJobs (now : Time) (lease : Duration) (limit : Nat) :
    (monitor (.claimDueJobs now lease limit)).wp (body P (.claimDueJobs now lease limit)).run
      (Finish (.claimDueJobs now lease limit)) .start := by
  have hend : ∀ g r, Finish (.claimDueJobs now lease limit) g r :=
    fun g r => finish_of_ne (by simp) (by simp)
  unfold body
  rw [Svc.wp_bind]
  refine wp_repo_cases ?_ (fun e => hend _ _) fun js => hend _ _
  exact fun e s => ⟨effect_claimDueJobs _ _ _ e s, rfl, .inr ⟨now, lease, limit, rfl⟩⟩

theorem wp_processJobCall (job : CertificateJob) :
    (monitor (.processJob job)).wp (body P (.processJob job)).run (Finish (.processJob job))
      .start := by
  unfold body
  rw [Svc.wp_bind]
  refine wp_processJob (.inr rfl) (.inr rfl) fun g' _ _ => ?_
  exact finish_of_ne (by simp) (by simp)

theorem wp_approveRequest (subj : Subjects) (id : Id) (reason : String) :
    (monitor (.approveRequest subj id reason)).wp (body P (.approveRequest subj id reason)).run
      (Finish (.approveRequest subj id reason)) .start := by
  have hq := ignores_quiet (.approveRequest subj id reason)
  have hend : ∀ g r, Finish (.approveRequest subj id reason) g r :=
    fun g r => finish_of_ne (by simp) (by simp)
  unfold body approveRequest
  rw [Svc.wp_bind]
  refine wp_only_bind hq (quiet_decisionCheck P _ _ _) (fun e => hend _ _) fun r => ?_
  refine wp_only_bind (ignores_silent _) (looks_newID.mono fun _ => Ev.Looks.silent) (fun e => hend _ _) fun jobID => ?_
  refine wp_only_bind hq quiet_now (fun e => hend _ _) fun now => ?_
  have hrest : (monitor (.approveRequest subj id reason)).wp
      (do emit (requestEvent subj .requestApproved id); fetch (Sql.getRequest subj.tenantID id)).run
      (After (monitor (.approveRequest subj id reason)) (fun r => pure (Value.request r))
        (Finish (.approveRequest subj id reason))) .start := by
    refine wp_only hq (only_bind (quiet_emit _) fun _ =>
      quiet_fetch (Sql.readOnly_getRequest _ _)) fun r => ?_
    cases r <;> exact hend _ _
  rw [Svc.wp_bind]
  refine wp_repo_cases ?_ (fun e => hend _ _) fun _ => hrest
  exact fun e s => ⟨effect_approve subj.tenantID id jobID _ _ _ ⟨rfl, rfl, rfl, rfl⟩ e s, subj,
    reason, rfl, rfl⟩

theorem wp_rejectRequest (subj : Subjects) (id : Id) (reason : String) :
    (monitor (.rejectRequest subj id reason)).wp (body P (.rejectRequest subj id reason)).run
      (Finish (.rejectRequest subj id reason)) .start := by
  have hq := ignores_quiet (.rejectRequest subj id reason)
  unfold body rejectRequest
  rw [Svc.wp_bind]
  refine wp_only_bind hq (quiet_decisionCheck P _ _ _) finish_error fun r => ?_
  rw [Svc.wp_bind]
  refine wp_repo_cases ?_ finish_error fun _ => ?_
  · exact fun e s => ⟨effect_setRequestStatus _ _ _ _ _ e s, subj, reason, rfl, rfl, rfl⟩
  refine wp_only hq (only_bind (quiet_emit _) fun _ =>
    quiet_fetch (Sql.readOnly_getRequest _ _)) fun r => ?_
  cases r with
  | error e => exact finish_error e
  | ok q => exact ⟨fun _ _ _ _ _ _ => rfl, fun _ _ _ h => by cases h⟩

theorem wp_writeJob {m : Svc CertificateJob} (hm : Quiet m)
    (hjob : Protocol call .start (.updateJob job (.ok ())))
    (hend : ∀ g r, g.wrote = true → Finish call g r) :
    (monitor call).wp (writeJob job >>= fun _ => m).run
      (After (monitor call) (fun j => pure (Value.job j)) (Finish call)) .start := by
  have hrest : (monitor call).wp m.run
      (After (monitor call) (fun j => pure (Value.job j)) (Finish call))
      { Work.start with wrote := true } := by
    refine wp_only (ignores_quiet call) hm fun r => ?_
    cases r <;> exact hend _ _ rfl
  rw [Svc.wp_bind]
  refine wp_repo_cases (fun e s => ⟨effect_updateJob _ e s, hjob⟩) ?_ fun _ => hrest
  exact fun e => finish_error e

theorem yields_getJob (t id : Id) :
    Yields (fun j => j.tenantID = t ∧ j.id = id) (fetch (Sql.getJob t id)) := by
  intro e s j hj
  have hrow := found_eq_ok.1 (transact_query_ok hj)
  exact (Database.job?_eq_some.1 hrow).2.symm

theorem wp_cancelJob (subj : Subjects) (id : Id) :
    (monitor (.cancelJob subj id)).wp (body P (.cancelJob subj id)).run
      (Finish (.cancelJob subj id)) .start := by
  have hq := ignores_quiet (.cancelJob subj id)
  unfold body cancelJob
  rw [Svc.wp_bind]
  refine wp_only_bind_yields hq (quiet_fetch (Sql.readOnly_getJob _ _)) (yields_getJob _ _)
    finish_error fun j hj => ?_
  refine wp_only_bind hq (quiet_authorizeJob P _ _ _) finish_error fun _ => ?_
  split
  · exact finish_error _
  refine wp_writeJob ?_ ⟨.inl rfl, ?_⟩ ?_
  · exact only_bind (quiet_emit _) fun _ => quiet_fetch (Sql.readOnly_getJob _ _)
  · rintro _ _ ⟨⟩
    exact hj
  · intro g r hw
    exact ⟨fun _ _ _ _ h => (by cases h), fun _ _ _ _ _ => hw⟩

theorem wp_retryJob (subj : Subjects) (id : Id) :
    (monitor (.retryJob subj id)).wp (body P (.retryJob subj id)).run
      (Finish (.retryJob subj id)) .start := by
  have hq := ignores_quiet (.retryJob subj id)
  unfold body retryJob
  rw [Svc.wp_bind]
  refine wp_only_bind hq (quiet_fetch (Sql.readOnly_getJob _ _)) finish_error fun j => ?_
  refine wp_only_bind hq (quiet_authorizeJob P _ _ _) finish_error fun _ => ?_
  split
  · exact finish_error _
  split
  · exact finish_error _
  refine wp_only_bind hq quiet_now finish_error fun now => ?_
  refine wp_writeJob (quiet_fetch (Sql.readOnly_getJob _ _)) ⟨.inr ⟨rfl, subj, id, rfl⟩, ?_⟩
    fun g r _ => finish_of_ne (by simp) (by simp)
  intro _ _ h
  cases h

end Enroll

theorem sound_enrollment {ops : Call → Prop} (hops : ∀ c, ops c → c.OnRequests) :
    (enrollment ops).Sound fun c => (body P c).run where
  wp_body c hc := by
    have hon := hops c hc
    cases c with
    | approveRequest subj id reason => exact Enroll.wp_approveRequest P subj id reason
    | rejectRequest subj id reason => exact Enroll.wp_rejectRequest P subj id reason
    | cancelJob subj id => exact Enroll.wp_cancelJob P subj id
    | retryJob subj id => exact Enroll.wp_retryJob P subj id
    | claimDueJobs now lease limit => exact Enroll.wp_claimDueJobs P now lease limit
    | processJob job => exact Enroll.wp_processJobCall P job
    | once => exact Enroll.wp_once P
    | _ => exact hon.elim
  ops_of_starts c g c' hc h := h.elim

end Lcm
