import Lcm.Protocol

/-!
# What does a failed issuance leave behind?

`Issue`, `Renew`, `RenewSystem` and `ObtainACMEFor` store a certificate in one transaction and
go on with repository calls of their own transactions: they mark the key as delivered, link the
old certificate to the new one, read the new row back. An error of one of these is returned, and
the certificate stays.

* `issuance_leaves_nothing_iff`: a failed call leaves nothing behind just when none of these
  later repository calls fails.
* `issuance_leaves_certificate`: a run in which one of them does.
-/

namespace Lcm

open Conc Db Svc Issue List

def issuanceCall : Call → Bool
  | .issue _ _ | .renew _ _ | .renewSystem _ _ | .obtainACMEFor _ _ _ _ _ _ _ => true
  | _ => false

/-- The repository calls that come after the certificate has been stored. -/
def Ev.afterStore : Ev → Bool
  | .setCertificateStatus _ _ _ _ _ | .markKeyDelivered _ _ _ | .readBack _ _ _ => true
  | _ => false

/-- Such a call has failed. -/
def Ev.fails : Ev → Bool
  | .setCertificateStatus _ _ _ _ r | .markKeyDelivered _ _ r => !r.isOk
  | .readBack _ _ r => !r.isOk
  | _ => false

/-- Of the repository calls that fail, none comes after the certificate has been stored. -/
def NoLateFault (P : Platform) (s : Database) (x : Turn) : Prop :=
  ∀ p ∈ (events P s x).zipIdx, p.1.afterStore = true → (x.env p.2).fault = .ok

instance (P : Platform) (s : Database) (x : Turn) : Decidable (NoLateFault P s x) :=
  inferInstanceAs (Decidable (∀ _ ∈ _, _))

/-- Which certificate it is, its status and its successor. -/
def IssuedCertificate.standing (c : IssuedCertificate) : Id × Id × CertStatus × Option Id :=
  (c.tenantID, c.id, c.status, c.supersededBy)

/-- The same certificates are stored, with the same statuses and the same successors. -/
def SameCertificates (s s' : Database) : Prop :=
  ∀ x, x ∈ s'.certificates.rows.map IssuedCertificate.standing ↔
    x ∈ s.certificates.rows.map IssuedCertificate.standing

/-- If the call returns an error, the certificates are those before the call, and if the order
was placed for a request and `FinishACME` marks it as failed, no certificate carries its id. -/
structure LeavesNothing (P : Platform) (s : Database) (x : Turn) : Prop where
  certificates : ∀ err, answer P s x = .error err → SameCertificates s (serve P s x)
  request : ∀ subj requestID issuerID domains csrPEM deliverKey autoRenew err,
    x.call = .obtainACMEFor subj (some requestID) issuerID domains csrPEM deliverKey autoRenew →
    (∀ c ∈ s.certificates.rows, c.requestID ≠ some requestID) → answer P s x = .error err →
    ∀ certificateID env s',
      s' = serve P (serve P s x) ⟨.finishACME subj requestID certificateID (some err), env⟩ →
      (s'.request? subj.tenantID requestID).map CertificateRequest.status = some .failed →
      ∀ c ∈ s'.certificates.rows, c.requestID ≠ some requestID

/-! ## One step -/

section Step

variable {P : Platform} {call : Call} {g : Progress} {e : Env} {s s' : Database} {ev : Ev}

theorem lost_next (g : Progress) (ev : Ev) : (g.next ev).lost = (g.lost || ev.fails) := by
  cases ev with
  | getCertificate _ _ r | readBack _ _ r | dueForRenewal r | insertCertificate _ r
  | setCertificateStatus _ _ _ _ r | markKeyDelivered _ _ r | revoke _ _ r =>
    cases r <;> simp [Progress.next, Ev.fails, Except.isOk, Except.toBool]
  | genKey k => cases k <;> simp [Progress.next, Ev.fails]
  | _ => simp [Progress.next, Ev.fails]

/-- What a step of such a call does to the certificates. -/
inductive IssuanceStep (call : Call) (g : Progress) (s : Database) (ev : Ev) (s' : Database) :
    Prop where
  | same (h : s'.certificates = s.certificates) (hm : (g.next ev).minted = g.minted)
  /-- the certificate is stored; it is the first one of the call -/
  | insert (row : IssuedCertificate) (hev : ev = .insertCertificate row (.ok ()))
      (hins : Inserted row s s') (hfirst : g.minted = [])
  /-- the key is marked, or the old certificate linked, after that -/
  | rewrite (id : Id) (f : IssuedCertificate → IssuedCertificate) (hf : ∀ c, (f c).id = c.id)
      (heq : s' = s.mapCertificate id f hf) (ht : ∀ c, (f c).tenantID = c.tenantID)
      (hm : (g.next ev).minted = g.minted) (hstored : g.minted ≠ [])

theorem issuanceStep (hcall : issuanceCall call) (heff : Effect s ev s')
    (hproto : Protocol P call g ev) : IssuanceStep call g s ev s' := by
  cases wrote P heff hproto with
  | nothing _ hev =>
    refine .same rfl ((g.steps ev).minted.resolve_right ?_)
    rintro ⟨row, hrow, -⟩
    exact hev row hrow
  | insert _ hins hfirst => exact .insert _ rfl hins hfirst
  | link _ hrow => exact .rewrite _ _ _ rfl (fun _ => rfl) rfl (by simp [hrow])
  | deliver h =>
    rcases h with ⟨subj, rfl, -⟩ | ⟨-, -, row, -, hm, -⟩
    · cases hcall
    · exact .rewrite _ _ _ rfl (fun _ => rfl) rfl (by simp [hm])
  | update | revoke | delete | restore | complete => cases hcall

theorem IssuanceStep.stays (h : IssuanceStep call g s ev s') {t id : Id}
    (hex : (s.certificate? t id).isSome) : (s'.certificate? t id).isSome := by
  cases h with
  | same h => rwa [Database.certificate?_congr h]
  | insert row _ hins _ =>
    obtain ⟨c, hc⟩ := Option.isSome_iff_exists.1 hex
    rw [hins.certificate?_mono hc]
    rfl
  | rewrite id1 f hf heq ht =>
    subst heq
    rw [Database.certificate?_mapCertificate s id1 f hf ht, Option.isSome_map]
    exact hex

end Step

/-! ## The whole call -/

/-- How far a call has come that began in the database `s₀`. -/
structure SoFar (e : Nat → Env) (call : Call) (s₀ : Database) (h : List Ev) (s : Database) :
    Prop where
  /-- as long as it has stored nothing, the certificates are those before the call -/
  before : (progress h).minted = [] → s.certificates = s₀.certificates
  /-- what it has stored is there, and was not there before the call -/
  stored : ∀ row ∈ (progress h).minted, (s.certificate? row.tenantID row.id).isSome ∧
    ∀ t, s₀.certificate? t row.id = none
  /-- the certificate it renews is there -/
  renewed : (progress h).copy.isSome → ∀ t id, call.renews? = some (t, id) →
    (s.certificate? t id).isSome
  /-- it has lost something just when a late repository call has failed -/
  lost : (progress h).lost = true ↔ ∃ p ∈ h.zipIdx, p.1.afterStore = true ∧ (e p.2).fault ≠ .ok
  /-- and by then it has stored its certificate -/
  late : (progress h).lost = true → (progress h).minted ≠ []

namespace SoFar

variable {P : Platform} {e : Nat → Env} {call : Call} {s₀ s s' : Database} {h : List Ev} {ev : Ev}

theorem start (e : Nat → Env) (call : Call) (s : Database) : SoFar e call s [] s where
  before _ := rfl
  stored row hrow := by cases hrow
  renewed hcopy := by cases hcopy
  lost := by simp [progress, Progress.start]
  late h := by cases h

theorem fails_iff (hs : SoFar e call s₀ h s) (hcall : issuanceCall call) {i : Env}
    (hok : Happens i s ev s' ∧ Protocol P call (progress h) ev) :
    ev.fails = true ↔ ev.afterStore = true ∧ i.fault ≠ .ok := by
  obtain ⟨⟨-, hans⟩, hproto⟩ := hok
  have hfind : ∀ {p : Prop} {b : Bool}, p → (b = true ↔ i.fault = .ok ∧ p) →
      ((!b) = true ↔ true = true ∧ i.fault ≠ .ok) := by
    intro p b hp hb
    cases b <;> simp_all
  cases ev with
  | setCertificateStatus t id st sup r =>
    obtain ⟨old, row, hcopy, -, hrenews, -⟩ := hproto
    exact hfind (hs.renewed (by simp [hcopy]) t id hrenews) hans
  | markKeyDelivered t id r =>
    rcases hproto with ⟨subj, rfl, -⟩ | ⟨subj, input, row, -, hm, rfl, rfl⟩
    · cases hcall
    · exact hfind (hs.stored row (by simp [hm])).1 hans
  | readBack t id r =>
    obtain ⟨⟨row, hm, rfl, rfl⟩, -⟩ := hproto
    exact hfind (hs.stored row (by simp [hm])).1 hans
  | _ => simp [Ev.fails, Ev.afterStore]

theorem minted_of_afterStore {g : Progress} (hcall : issuanceCall call)
    (hproto : Protocol P call g ev) (hlate : ev.afterStore = true) : g.minted ≠ [] := by
  cases ev with
  | setCertificateStatus t id st sup r =>
    obtain ⟨old, row, -, hm, -⟩ := hproto
    simp [hm]
  | markKeyDelivered t id r =>
    rcases hproto with ⟨subj, rfl, -⟩ | ⟨subj, input, row, -, hm, -⟩
    · cases hcall
    · simp [hm]
  | readBack t id r =>
    obtain ⟨⟨row, hm, -⟩, -⟩ := hproto
    simp [hm]
  | _ => cases hlate

theorem step (hs : SoFar e call s₀ h s) (hcall : issuanceCall call)
    (hok : Happens (e h.length) s ev s' ∧ Protocol P call (progress h) ev) :
    SoFar e call s₀ (h ++ [ev]) s' := by
  have hstep := issuanceStep hcall hok.1.effect hok.2
  have hfails := hs.fails_iff hcall hok
  refine ⟨?_, ?_, ?_, ?_, ?_⟩
  · rw [progress_push]
    intro hm
    cases hstep with
    | same hsame hm' => exact hsame.trans (hs.before (hm' ▸ hm))
    | insert row hev =>
      subst hev
      simp [Progress.next] at hm
    | rewrite _ _ _ _ _ hm' hstored => exact absurd (hm' ▸ hm) hstored
  · rw [progress_push]
    intro row hrow
    have hold : row ∈ (progress h).minted → (s'.certificate? row.tenantID row.id).isSome ∧
        ∀ t, s₀.certificate? t row.id = none :=
      fun hrow => ⟨hstep.stays (hs.stored row hrow).1, (hs.stored row hrow).2⟩
    rcases Progress.mem_minted_next_cases hrow with hrow | rfl
    · exact hold hrow
    have hins : Inserted row s s' := hok.1.effect
    obtain ⟨now, hself⟩ := hins.certificate?_self
    refine ⟨by simp [hself], fun t => ?_⟩
    -- nothing was stored before, so the table is still that of the start
    rw [← Database.certificate?_congr (hs.before hok.2.1)]
    exact hins.fresh t
  · rw [progress_push]
    intro hcopy t id hrenews
    rcases ((progress h).steps ev).copy with hc | ⟨t', id', c, rfl, -⟩
    · exact hstep.stays (hs.renewed (hc ▸ hcopy) t id hrenews)
    obtain ⟨⟨⟨rfl, hread⟩, -⟩, -, -, htarget⟩ := hok
    rw [Call.target?_of_renews? hrenews] at htarget
    cases htarget
    simp [hread c rfl]
  · rw [progress_push, lost_next, Bool.or_eq_true, hs.lost, hfails, zipIdx_append]
    simp only [mem_append, or_and_right, exists_or, Nat.zero_add, zipIdx_cons,
      zipIdx_nil, mem_singleton, exists_eq_left]
  rw [progress_push, lost_next, Bool.or_eq_true]
  intro hlost
  refine Progress.minted_ne_nil_next ?_ ev
  rcases hlost with hlost | hlost
  · exact hs.late hlost
  · exact minted_of_afterStore hcall hok.2 (hfails.1 hlost).1

theorem of_call (P : Platform) (s : Database) {x : Turn} (hcall : issuanceCall x.call) :
    SoFar x.env x.call s (events P s x) (serve P s x) ∧
      Finish P x.call (progress (events P s x)) (answer P s x) := by
  have hon : x.call.OnCertificates := by
    cases hx : x.call <;> first | trivial | (rw [hx] at hcall; cases hcall)
  have hwp : (certificateMonitor P x.call).wp (body P x.call).run (Finish P x.call) .start :=
    Spec.Sound.wp_body (S := certificates P Call.OnCertificates)
      (sound_certificates P (fun _ h => h) fun _ _ => trivial) x.call hon
  refine Monitor.exec_of_wp (J := SoFar x.env x.call s) ?_ s [] hwp (start _ _ _)
  intro h s' ev s'' hs hok
  exact hs.step hcall hok

end SoFar

theorem certificates_finishACME (P : Platform) (s : Database) (subj : Subjects)
    (requestID certificateID : Id) (err : Err) (env : Nat → Env) :
    (serve P s ⟨.finishACME subj requestID certificateID (some err), env⟩).certificates
      = s.certificates := by
  have heff := effect_completeRequest subj.tenantID requestID .failed none (some (failReason err))
    (env 0) s
  unfold serve body finishACME
  rw [exec_repo_bind]
  generalize transact (Sql.completeRequest _ _ _ _ _) (env 0) s = x at heff ⊢
  obtain ⟨r, s'⟩ := x
  cases r with
  | error e => exact congrArg Database.certificates heff
  | ok _ =>
    obtain ⟨-, cert, reason, rfl⟩ := heff
    rfl

/-- A failed issuance leaves nothing behind just when no repository call fails after the one that
stores the certificate. -/
theorem issuance_leaves_nothing_iff (P : Platform) (s : Database) (x : Turn)
    (hcall : issuanceCall x.call) : LeavesNothing P s x ↔ NoLateFault P s x := by
  obtain ⟨hfar, hfin⟩ := SoFar.of_call P s hcall
  constructor
  · intro hleaves p hp hlate
    by_contra hfault
    have hlost := hfar.lost.2 ⟨p, hp, hlate, hfault⟩
    cases hr : answer P s x with
    | ok v =>
      have hkept := hfin.kept v hr fun cert hc => by rw [hc] at hcall; cases hcall
      rw [hlost] at hkept
      cases hkept
    | error err =>
      -- the certificate it has stored is there, and was not there before
      obtain ⟨row, hrow⟩ := exists_mem_of_ne_nil _ (hfar.late hlost)
      obtain ⟨hthere, hnew⟩ := hfar.stored row hrow
      obtain ⟨c, hc⟩ := Option.isSome_iff_exists.1 hthere
      obtain ⟨hmem, hid, -⟩ := Database.certificate?_eq_some.1 hc
      have hbefore := (hleaves.certificates err hr c.standing).1 (mem_map_of_mem hmem)
      obtain ⟨c₀, hc₀, heq⟩ := mem_map.1 hbefore
      simp only [IssuedCertificate.standing, Prod.mk.injEq] at heq
      have hfound := Database.certificate?_eq_some.2 ⟨hc₀, heq.2.1.trans hid, rfl⟩
      rw [hnew] at hfound
      cases hfound
  · intro hok
    have hsame : ∀ err, answer P s x = .error err →
        (serve P s x).certificates = s.certificates := by
      intro err hr
      refine hfar.before ?_
      by_contra hm
      obtain ⟨p, hp, hlate, hfault⟩ := hfar.lost.1 (hfin.lost err hr hm)
      exact hfault (hok p hp hlate)
    constructor
    · intro err hr y
      rw [hsame err hr]
    intro subj rid issuerID domains csrPEM dk ar err _ hnone hr cid env s' hs' _ c hc
    rw [hs', certificates_finishACME, hsame err hr] at hc
    exact hnone c hc

/-! ## An `Issue` with one failing repository call -/

namespace Sample

/-- A quiet world, but for the repository call of the `k`-th step, which fails. -/
def faultAt (k : Nat) (n : Nat) : Env :=
  if n = k then { env 10 with fault := .stmt "connection reset" } else env 10

/-- `Issue`, with the repository call of the `k`-th step failing. -/
def issueWithFault (k : Nat) : Turn := ⟨.issue admin keyInput, faultAt k⟩

end Sample

open Sample

set_option maxRecDepth 4000 in
/-- If the transaction that stores the certificate fails, no certificate is stored. -/
theorem issuance_leaves_nothing_at_store :
    answer platform database (issueWithFault 12)
        = .error (.database "connection reset") ∧
      SameCertificates database
        (serve platform database (issueWithFault 12)) := by
  have hanswer : answer platform database (issueWithFault 12)
      = .error (.database "connection reset") := by
    decide
  refine ⟨hanswer, ?_⟩
  have hleaves := (issuance_leaves_nothing_iff platform database
    (issueWithFault 12) (by decide)).2 (by decide)
  exact hleaves.certificates _ hanswer

set_option maxRecDepth 4000 in
/-- If the key cannot be marked as delivered, `Issue` returns an error and the certificate is
stored. -/
theorem issuance_leaves_certificate :
    ¬ ∀ (P : Platform) (s : Database) (x : Turn), issuanceCall x.call → LeavesNothing P s x := by
  intro h
  have hleaves := h platform database (issueWithFault 14) (by decide)
  have hanswer : answer platform database (issueWithFault 14)
      = .error (.database "connection reset") := by
    decide
  have hstored : (1, 10, .active, none) ∈ (serve platform database
      (issueWithFault 14)).certificates.rows.map IssuedCertificate.standing := by
    decide
  have hbefore := (hleaves.certificates _ hanswer _).1 hstored
  revert hbefore
  decide

end Lcm
