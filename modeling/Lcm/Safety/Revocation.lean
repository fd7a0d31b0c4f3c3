import Lcm.Protocol

/-!
# Is revocation permanent?

`UpdateCertificate`, `Renew` and `RenewSystem` read a certificate, work on it, and later write
the status they have read back. A `Revoke` that commits in between is undone by that write.

* `revoked_stays_revoked`: in every run in which no such write meets a certificate that was
  revoked after it had been read, a certificate stays revoked once `Revoke` has returned.
* `revocation_undone`: without that, it does not.
-/

namespace Lcm

open Conc Db Svc Issue Database

def revocationCall : Call → Bool
  | .revoke _ _ _ | .renew _ _ | .renewSystem _ _ | .updateCertificate _ _ _
  | .markKeyDelivered _ _ | .downloadKey _ _ => true
  | _ => false

/-- The certificate whose status the step writes back, with its tenant. -/
def Ev.writesBack? : Ev → Option (Id × Id)
  | .updateCertificate row _ => some (row.tenantID, row.id)
  | .setCertificateStatus t id _ _ _ => some (t, id)
  | _ => none

/-- The status a tenant's certificate is stored with. -/
def Database.status? (s : Database) (t id : Id) : Option CertStatus :=
  (s.certificate? t id).map IssuedCertificate.status

theorem Database.status?_eq_some {s : Database} {t id : Id} {st : CertStatus} :
    s.status? t id = some st ↔ ∃ row, s.certificate? t id = some row ∧ row.status = st := by
  simp [status?]

/-- If the step writes a status back and the certificate is stored as revoked, then it was
already revoked when the call read it. -/
def NoStaleWriteBack (cfg : SysConfig) : SysAct → Prop
  | .spawn _ => True
  | .run i e => ∀ th ∈ cfg.threads[i]?, ∀ w ∈ (cfg.emits i e).bind Ev.writesBack?,
      cfg.store.status? w.1 w.2 = some .revoked →
        (progress th.hist).copy.map IssuedCertificate.status = some .revoked

instance (cfg : SysConfig) : DecidablePred (NoStaleWriteBack cfg)
  | .spawn _ => .isTrue trivial
  | .run _ _ => inferInstanceAs (Decidable (∀ _ ∈ _, _))

/-! ## One step -/

section Step

variable {P : Platform} {call : Call} {g : Progress} {s s' : Database} {ev : Ev} {t id : Id}

theorem revoked_mapCertificate (id1 : Id) (f : IssuedCertificate → IssuedCertificate)
    (hf : ∀ c, (f c).id = c.id) (ht : ∀ c, (f c).tenantID = c.tenantID)
    (hrev : s.status? t id = some .revoked)
    (hst : id = id1 → ∀ c, c.status = .revoked → (f c).status = .revoked) :
    (s.mapCertificate id1 f hf).status? t id = some .revoked := by
  obtain ⟨c, hc, hcs⟩ := status?_eq_some.1 hrev
  refine status?_eq_some.2 ⟨if id = id1 then f c else c, ?_, ?_⟩
  · rw [certificate?_mapCertificate s id1 f hf ht, hc]
    rfl
  by_cases hid : id = id1
  · simpa [hid] using hst hid c hcs
  · simpa [hid] using hcs

theorem revoke_revokes (h : Revoked t id s s') : s'.status? t id = some .revoked := by
  obtain ⟨c, hc⟩ := Option.isSome_iff_exists.1 h.existed
  refine status?_eq_some.2 ⟨c.setStatus .revoked none, ?_, rfl⟩
  rw [certificate?_congr h.certificates, certificate?_mapCertificate, hc]
  · simp
  · exact fun c => c.setStatus_tenantID .revoked none

theorem revoked_step (hcall : ¬ call.Rewrites)
    (heff : Effect s ev s') (hproto : Protocol P call g ev)
    (hstale : ∀ w ∈ ev.writesBack?, s.status? w.1 w.2 = some .revoked →
      g.copy.map IssuedCertificate.status = some .revoked)
    (hrev : s.status? t id = some .revoked) : s'.status? t id = some .revoked := by
  -- a write-back of this certificate finds it revoked, so the copy is revoked too
  have hback : ∀ t1 old, (t1, old.id) ∈ ev.writesBack? → (s.certificate? t1 old.id).isSome →
      g.copy = some old → id = old.id → old.status = .revoked := by
    rintro t1 old hw hex hold rfl
    obtain ⟨c, hc, -⟩ := status?_eq_some.1 hrev
    obtain rfl := tenant_unique hc hex
    have hcopy := hstale _ hw hrev
    rw [hold] at hcopy
    exact Option.some.inj hcopy
  cases wrote P heff hproto with
  | nothing => exact hrev
  | insert _ hins =>
    obtain ⟨c, hc, hcs⟩ := status?_eq_some.1 hrev
    exact status?_eq_some.2 ⟨c, hins.certificate?_mono hc, hcs⟩
  | @update _ _ old hold hex | @link _ _ old _ hold _ _ hex =>
    exact revoked_mapCertificate _ _ _ (fun _ => rfl) hrev fun hid _ _ =>
      hback _ old rfl hex hold hid
  | deliver => exact revoked_mapCertificate _ _ _ (fun _ => rfl) hrev fun _ c hc => hc
  | @revoke _ id1 _ _ h =>
    have hmap := revoked_mapCertificate id1 _ (fun c => c.setStatus_id .revoked none)
      (fun c => c.setStatus_tenantID .revoked none) hrev fun _ _ _ => rfl
    unfold status? at hmap ⊢
    rwa [certificate?_congr h.certificates]
  | delete | restore => exact absurd trivial hcall
  | complete h =>
    obtain ⟨-, cert, reason, rfl⟩ := h
    exact hrev

end Step

/-! ## Every run -/

/-- If the call is a `Revoke` that has revoked, its certificate is stored as revoked. -/
def KeepsRevoked (u : Record Database Ev Call) (s : Database) : Prop :=
  ∀ subj id reason, u.call = .revoke subj id reason → (progress u.hist).revoked = true →
    s.status? subj.tenantID id = some .revoked

section Run

variable {P : Platform}

theorem not_rewrites_of_revocationCall {call : Call} (h : revocationCall call) :
    ¬ call.Rewrites := by
  intro hrw
  cases call <;> first | exact hrw | cases h

theorem sound_revocationCalls : (certificates P fun c => revocationCall c).Sound
    fun c => (body P c).run := by
  refine sound_certificates P ?_ (fun h => by cases h)
  intro c hc
  cases c <;> trivial

theorem revoked_pool_step {cfg : SysConfig} {i : Nat} {e : Env} {th : SysThread} {ev : Ev}
    {s' : Database} (hstale : NoStaleWriteBack cfg (.run i e)) (hth : cfg.threads[i]? = some th)
    (hcall : ¬ th.call.Rewrites) (hev : cfg.emits i e = some ev)
    (hok : Happens e cfg.store ev s' ∧ Protocol P th.call (progress th.hist) ev) {t id : Id}
    (hrev : cfg.store.status? t id = some .revoked) : s'.status? t id = some .revoked := by
  refine revoked_step hcall hok.1.effect hok.2 ?_ hrev
  intro w hw
  exact hstale th hth w (by simpa [hev] using hw)

theorem keepsRevoked_exec {db : Database} {as : List SysAct}
    (hcalls : ∀ a ∈ as, a.Calls fun c => revocationCall c)
    (hstale : AllMeet P NoStaleWriteBack db as) :
    ∀ u ∈ (runFrom P db as).threads, KeepsRevoked u.toRecord (runFrom P db as).store := by
  refine (Spec.modular_exec (sound_revocationCalls (P := P)) (I := fun _ => True)
    (L := KeepsRevoked) ?_ ?_ ?_ (Spec.tracked_init db) trivial ?_ hcalls hstale).2
  · -- a call that begins has not revoked yet
    intro cfg c _ _ _ _ subj id reason _ h
    cases h
  · intro cfg i e th c _ _ _ _ _ _ subj id reason _ h
    cases h
  · intro cfg i e th ev s' hc hth hop hev hok _ hL
    refine ⟨trivial, ?_, ?_⟩
    · -- its own step: it had revoked before, or this is the step that does
      intro subj id reason hcall hrev
      rw [Record.push_hist, progress_push] at hrev
      rcases ((progress th.hist).steps ev).revoked with h | ⟨t1, id1, rfl⟩
      · rw [h] at hrev
        have hbefore := hL th (List.mem_of_getElem? hth) subj id reason hcall hrev
        exact revoked_pool_step hc hth (not_rewrites_of_revocationCall hop) hev hok hbefore
      obtain ⟨⟨heff, -⟩, subj', reason', hcall', rfl⟩ := hok
      have heq : Call.revoke subj id reason = .revoke subj' id1 reason' := hcall.symm.trans hcall'
      cases heq
      exact revoke_revokes heff
    · -- somebody else's step
      intro u hu subj id reason hcall hrev
      have hbefore := hL u hu subj id reason hcall hrev
      exact revoked_pool_step hc hth (not_rewrites_of_revocationCall hop) hev hok hbefore
  · intro u hu
    cases hu

/-- Once `Revoke` has returned without an error, the certificate stays revoked, in every run
in which no call writes back a status older than the revocation. -/
theorem revoked_stays_revoked (P : Platform) (db : Database) (as bs : List SysAct)
    (hcalls : ∀ a ∈ as ++ bs, a.Calls fun c => revocationCall c)
    (hstale : AllMeet P NoStaleWriteBack db (as ++ bs))
    (th : SysThread) (hth : th ∈ (runFrom P db as).threads) (subj : Subjects) (c : Id)
    (reason : String) (hcall : th.call = .revoke subj c reason) (v : Value) (hret : Returned th v)
    (row : IssuedCertificate)
    (hrow : (runFrom P db (as ++ bs)).store.certificate? subj.tenantID c = some row) :
    row.status = .revoked := by
  obtain ⟨hstale₁, hstale₂⟩ := (Config.meets_append _).1 hstale
  obtain ⟨hcalls₁, hcalls₂⟩ := List.forall_mem_append.1 hcalls
  have htracked : (certificates P fun c => revocationCall c).Tracked (runFrom P db as) :=
    Spec.tracked_exec sound_revocationCalls (Spec.tracked_init db) hcalls₁
  -- at the return the certificate is revoked
  have hdone := (htracked.post_of_result hth hret).revoked subj c reason v hcall rfl
  have hmid := keepsRevoked_exec hcalls₁ hstale₁ th hth subj c reason hcall hdone
  -- and every later step keeps it so
  have hend : (runFrom P db (as ++ bs)).store.status? subj.tenantID c = some .revoked := by
    unfold runFrom
    rw [Config.exec_append]
    refine (Spec.modular_exec (sound_revocationCalls (P := P))
      (I := fun s => s.status? subj.tenantID c = some .revoked) (L := fun _ _ => True)
      (fun _ _ _ _ _ _ => trivial) (fun _ _ _ _ _ _ _ _ _ _ _ => trivial) ?_ htracked hmid
      (fun _ _ => trivial) hcalls₂ hstale₂).1
    intro cfg i e th ev s' hc hth hop hev hok hrev _
    have hrev' := revoked_pool_step hc hth (not_rewrites_of_revocationCall hop) hev hok hrev
    exact ⟨hrev', trivial, fun _ _ => trivial⟩
  obtain ⟨row', hrow', hst⟩ := status?_eq_some.1 hend
  rw [hrow] at hrow'
  cases hrow'
  exact hst

end Run

/-! ## Two schedules of the sample deployment -/

namespace Sample

/-- An update reads the certificate, then a `Revoke` runs from its arrival to its return. -/
def revokeDuringUpdate : List SysAct :=
  .spawn (.updateCertificate admin 4 ⟨"bob", none⟩) :: steps 0 4 10 ++
    .spawn (.revoke admin 4 "") :: steps 1 7 20

/-- A `Revoke` runs from its arrival to its return. -/
def revokeAlone : List SysAct := .spawn (.revoke admin 4 "") :: steps 0 7 20

/-- An update runs from its arrival to its return. -/
def updateAlone : List SysAct :=
  .spawn (.updateCertificate admin 4 ⟨"bob", none⟩) :: steps 1 12 30

end Sample

open Sample

set_option maxRecDepth 4000 in
/-- Run after the `Revoke`, the update writes the status back that it has read. -/
theorem revoked_stays_revoked_over_update :
    ∃ row, (runFrom platform database (revokeAlone ++ updateAlone)
      ).store.certificate? 1 4 = some row ∧ row.owner = "bob" ∧ row.status = .revoked := by
  have hrow : ((runFrom platform database
      (revokeAlone ++ updateAlone)).store.certificate? 1 4).map
      IssuedCertificate.owner = some "bob" := by decide
  obtain ⟨row, hrow, howner⟩ := Option.map_eq_some_iff.1 hrow
  refine ⟨row, hrow, howner, ?_⟩
  have hdone : outcome? (runFrom platform database revokeAlone) 0
      = some (.revoke admin 4 "", .unit) := by
    decide
  obtain ⟨th, hth, hcall, hret⟩ := returned_of_outcome? hdone
  exact revoked_stays_revoked platform database revokeAlone
    updateAlone (by decide) (by decide) th hth admin 4 "" hcall .unit hret row hrow

set_option maxRecDepth 4000 in
/-- An update that has read the certificate before a `Revoke` and writes it back after the
`Revoke` has returned makes the certificate active again. -/
theorem revocation_undone :
    ¬ ∀ (P : Platform) (db : Database) (as bs : List SysAct),
      (∀ a ∈ as ++ bs, a.Calls fun c => revocationCall c) →
      ∀ th ∈ (runFrom P db as).threads, ∀ subj c reason, th.call = .revoke subj c reason →
      ∀ v, Returned th v →
      ∀ row, (runFrom P db (as ++ bs)).store.certificate? subj.tenantID c = some row →
        row.status = .revoked := by
  intro h
  have hactive : (runFrom platform database
      (revokeDuringUpdate ++ steps 0 1 30)).store.status? 1 4 = some .active := by
    decide
  have hdone : outcome? (runFrom platform database revokeDuringUpdate) 1
      = some (.revoke admin 4 "", .unit) := by
    decide
  obtain ⟨row, hrow, hst⟩ := status?_eq_some.1 hactive
  obtain ⟨th, hth, hcall, hret⟩ := returned_of_outcome? hdone
  have hrev := h platform database revokeDuringUpdate (steps 0 1 30)
    (by decide) th hth admin 4 "" hcall .unit hret row hrow
  rw [hst] at hrev
  cases hrev

end Lcm
