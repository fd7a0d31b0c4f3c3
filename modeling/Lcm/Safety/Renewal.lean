import Lcm.Safety.Revocation

/-!
# Renewals

`renewCert` looks neither at the `superseded_by` of the row it has read nor at its status, and
the stamp that ends a renewal is a transaction of its own. So a certificate may be renewed
twice, and a revoked one may be renewed.

* `renewed_at_most_once`: if a renewal reads a certificate only while no other renewal of it is
  under way and it has no successor, and the stamps do not fail, every certificate has at most
  one successor.
* `not_revived`: if renewals read no revoked certificate and no stale status is written back,
  a certificate that was revoked when the renewal began is not renewed.
* `renewed_twice` and `revoked_renewed`: without that, neither holds.
-/

namespace Lcm

open Conc Db Svc Issue List

def renewalCall : Call → Bool
  | .renew _ _ | .runOnce => true
  | _ => false

/-- These calls and the workers of a pass. -/
def renewalStep : Call → Bool
  | .renewOne _ => true
  | c => renewalCall c

/-- The certificates minted as renewals of certificate `c`. -/
def renewalsOf (cfg : SysConfig) (t c : Id) : List IssuedCertificate :=
  cfg.threads.flatMap fun th =>
    if th.call.renews? = some (t, c) then (progress th.hist).minted else []

/-- The thread has read the certificate and has not returned. -/
def underWay (th : SysThread) : Bool :=
  (progress th.hist).copy.isSome && th.prog.result?.isNone

/-- The certificate the step reads to work on it, with its tenant. -/
def Ev.loads? : Ev → Option (Id × Id)
  | .getCertificate t id _ => some (t, id)
  | _ => none

/-- The step stamps a certificate with its successor. -/
def Ev.stamps : Ev → Bool
  | .setCertificateStatus _ _ _ _ _ => true
  | _ => false

/-- A renewal reads a certificate only while it has no successor and no renewal of it is under
way. -/
def ReadsIdle (cfg : SysConfig) : SysAct → Prop
  | .spawn _ => True
  | .run i e => ∀ x ∈ (cfg.emits i e).bind Ev.loads?,
      (∀ row ∈ cfg.store.certificate? x.1 x.2, row.supersededBy = none) ∧
        ∀ u ∈ cfg.threads, u.call.renews? = some x → underWay u = false

instance (cfg : SysConfig) : DecidablePred (ReadsIdle cfg)
  | .spawn _ => .isTrue trivial
  | .run _ _ => inferInstanceAs (Decidable (∀ _ ∈ _, _))

/-- The repository call that stamps a certificate with its successor does not fail. -/
def StampsHold (cfg : SysConfig) : SysAct → Prop
  | .spawn _ => True
  | .run i e => ∀ ev ∈ cfg.emits i e, ev.stamps → e.fault = .ok

instance (cfg : SysConfig) : DecidablePred (StampsHold cfg)
  | .spawn _ => .isTrue trivial
  | .run _ _ => inferInstanceAs (Decidable (∀ _ ∈ _, _))

/-! ## One step -/

section Step

variable {P : Platform} {call : Call} {g : Progress} {e : Env} {s s' : Database} {ev : Ev}
variable {t c : Id}

theorem superseded_step (hcall : renewalStep call) (heff : Effect s ev s')
    (hproto : Protocol P call g ev) {row : IssuedCertificate}
    (hrow : s.certificate? t c = some row) :
    ∃ row', s'.certificate? t c = some row' ∧
      (row.supersededBy.isSome → row'.supersededBy.isSome) := by
  cases wrote P heff hproto with
  | nothing => exact ⟨row, hrow, id⟩
  | insert _ hins => exact ⟨row, hins.certificate?_mono hrow, id⟩
  | @link _ _ old new =>
    refine ⟨if c = old.id then row.setStatus old.status (some new.id) else row, ?_, ?_⟩
    · rw [Database.certificate?_mapCertificate _ _ _ _
        fun x => x.setStatus_tenantID old.status (some new.id), hrow]
      rfl
    intro hsup
    split
    · rfl
    · exact hsup
  | deliver h =>
    rcases h with ⟨subj, rfl, -⟩ | ⟨subj, input, row1, rfl, -⟩
    · cases hcall
    · cases hcall
  | update | revoke | delete | restore | complete => cases hcall

/-- What is known of a renewal of certificate `c`. -/
structure RenewalOf (t c : Id) (g : Progress) (s : Database) : Prop where
  found : g.copy.isSome → (s.certificate? t c).isSome
  superseded : g.linked = true → ∃ row, s.certificate? t c = some row ∧ row.supersededBy.isSome
  /-- nothing but the last read fails after the mint -/
  linked : g.lost = true → g.linked = true
  loaded : g.minted ≠ [] → g.copy.isSome
  length_minted : g.minted.length ≤ 1

theorem RenewalOf.start (s : Database) : RenewalOf t c .start s where
  found h := by cases h
  superseded h := by cases h
  linked h := by cases h
  loaded h := absurd rfl h
  length_minted := Nat.zero_le 1

theorem RenewalOf.stable {g1 : Progress} (h : RenewalOf t c g1 s) (hcall : renewalStep call)
    (heff : Effect s ev s') (hproto : Protocol P call g ev) : RenewalOf t c g1 s' where
  found hcopy := by
    obtain ⟨row, hrow⟩ := Option.isSome_iff_exists.1 (h.found hcopy)
    obtain ⟨row', hrow', -⟩ := superseded_step hcall heff hproto hrow
    rw [hrow']
    rfl
  superseded hlinked := by
    obtain ⟨row, hrow, hsup⟩ := h.superseded hlinked
    obtain ⟨row', hrow', hsup'⟩ := superseded_step hcall heff hproto hrow
    exact ⟨row', hrow', hsup' hsup⟩
  linked := h.linked
  loaded := h.loaded
  length_minted := h.length_minted

theorem RenewalOf.step (h : RenewalOf t c g s) (hcall : renewalStep call)
    (hof : call.renews? = some (t, c)) (hhap : Happens e s ev s') (hproto : Protocol P call g ev)
    (hstamp : ev.stamps → e.fault = .ok) : RenewalOf t c (g.next ev) s' where
  found hcopy := by
    have hstable := h.stable hcall hhap.effect hproto
    rcases (g.steps ev).copy with hc | ⟨t1, id1, row, rfl, -⟩
    · rw [hc] at hcopy
      exact hstable.found hcopy
    · -- the certificate it has just read
      obtain ⟨-, -, htarget⟩ := hproto
      rw [Call.target?_of_renews? hof] at htarget
      cases htarget
      obtain ⟨rfl, hread⟩ := hhap.effect
      rw [hread row rfl]
      rfl
  superseded hlinked := by
    have hstable := h.stable hcall hhap.effect hproto
    rcases (g.steps ev).linked with hl | ⟨t1, id1, st, sup, rfl, -⟩
    · rw [hl] at hlinked
      exact hstable.superseded hlinked
    · -- its own stamp
      obtain ⟨old, row, -, -, hof', -, -, rfl⟩ := hproto
      rw [hof] at hof'
      cases hof'
      obtain ⟨hex, rfl⟩ := hhap.effect
      obtain ⟨stored, hstored⟩ := Option.isSome_iff_exists.1 hex
      refine ⟨stored.setStatus st (some row.id), ?_, rfl⟩
      rw [Database.certificate?_mapCertificate _ _ _ _
        fun x => x.setStatus_tenantID st (some row.id), hstored]
      simp
  linked hlost := by
    rcases (g.steps ev).lost with hl | ⟨t1, id1, st, sup, err, rfl⟩ | ⟨t1, id1, err, rfl⟩ |
      ⟨t1, id1, err, rfl⟩
    · rw [hl] at hlost
      exact Progress.linked_next (h.linked hlost) ev
    · -- the stamp finds the certificate, so it does not fail
      obtain ⟨old, row, hcopy, -, hof', -⟩ := hproto
      rw [hof] at hof'
      cases hof'
      have hok := hhap.answers.2 ⟨hstamp rfl, h.found (by rw [hcopy]; rfl)⟩
      cases hok
    · -- a renewal marks no key
      rcases hproto with ⟨subj, rfl, -⟩ | ⟨subj, input, row, rfl, -⟩
      · cases hcall
      · cases hcall
    · exact hproto.2 (by rw [hof]; rfl)
  loaded hminted := by
    refine Progress.copy_next ?_ ev
    rcases (g.steps ev).minted with hm | ⟨row, rfl, -⟩
    · rw [hm] at hminted
      exact h.loaded hminted
    · exact hproto.2.loaded (by rw [hof]; rfl)
  length_minted := by
    rcases (g.steps ev).minted with hm | ⟨row, rfl, hm⟩
    · rw [hm]
      exact h.length_minted
    · rw [hm, hproto.1]
      exact le_refl 1

end Step

/-! ## Every run -/

/-- The thread has renewed the certificate, or is about to. -/
def renewing (t c : Id) (th : SysThread) : Bool :=
  th.call.renews? == some (t, c) && (!(progress th.hist).minted.isEmpty || underWay th)

/-- One for such a thread. -/
def renewingCount (t c : Id) (th : SysThread) : Nat := if renewing t c th then 1 else 0

/-- The invariant: at most one thread has renewed the certificate or is about to. -/
structure OneRenewal (t c : Id) (cfg : SysConfig) : Prop where
  known : ∀ u ∈ cfg.threads, u.call.renews? = some (t, c) →
    RenewalOf t c (progress u.hist) cfg.store
  one : (cfg.threads.map (renewingCount t c)).sum ≤ 1

section Run

variable {P : Platform} {cfg : SysConfig} {i : Nat} {e : Env} {th : SysThread} {ev : Ev}
variable {s' : Database} {p : Prog Env Database Ev Call (Except Err Value)} {t c : Id}

theorem sound_renewalSteps : (certificates P fun c => renewalStep c).Sound
    fun c => (body P c).run := by
  refine sound_certificates P ?_ (fun _ _ => rfl)
  intro c hc
  cases c <;> trivial

theorem renewing_iff : renewing t c th = true ↔ th.call.renews? = some (t, c) ∧
    ((progress th.hist).minted ≠ [] ∨ (progress th.hist).copy.isSome ∧ th.prog.result? = none) := by
  simp [renewing, underWay]

theorem renewing_of_push (hproto : Protocol P th.call (progress th.hist) ev)
    (hrun : th.prog.result? = none) (h : renewing t c ⟨th.toRecord.push ev, p⟩ = true) :
    renewing t c th = true ∨
      (progress th.hist).copy = none ∧ ∃ r, ev = .getCertificate t c r := by
  obtain ⟨hof, hdone⟩ := renewing_iff.1 h
  have hof' : th.call.renews? = some (t, c) := hof
  simp only [Record.push_hist, progress_push] at hdone
  rcases hdone with hminted | ⟨hcopy, -⟩
  · refine .inl (renewing_iff.2 ⟨hof', ?_⟩)
    rcases ((progress th.hist).steps ev).minted with hm | ⟨row, rfl, -⟩
    · rw [hm] at hminted
      exact .inl hminted
    · -- the mint of a renewal that had read the certificate
      exact .inr ⟨hproto.2.loaded (by rw [hof']; rfl), hrun⟩
  rcases ((progress th.hist).steps ev).copy with hc | ⟨t1, id1, row, rfl, -⟩
  · rw [hc] at hcopy
    exact .inl (renewing_iff.2 ⟨hof', .inr ⟨hcopy, hrun⟩⟩)
  obtain ⟨hnone, -, htarget⟩ := hproto
  rw [Call.target?_of_renews? hof'] at htarget
  cases htarget
  exact .inr ⟨hnone, _, rfl⟩

theorem not_renewing_of_idle (hT : (certificates P fun c => renewalStep c).Tracked cfg)
    (hI : OneRenewal t c cfg) (hsup : ∀ row ∈ cfg.store.certificate? t c, row.supersededBy = none)
    (hidle : ∀ u ∈ cfg.threads, u.call.renews? = some (t, c) → underWay u = false) :
    ∀ u ∈ cfg.threads, renewing t c u = false := by
  intro u hu
  by_contra hne
  obtain ⟨hof, hdone⟩ := renewing_iff.1 (Bool.not_eq_false _ ▸ hne)
  have hknown := hI.known u hu hof
  have hnot := hidle u hu hof
  simp only [underWay, Bool.and_eq_false_iff, Option.isNone_eq_false_iff] at hnot
  have hminted : (progress u.hist).minted ≠ [] := by
    rcases hdone with hm | ⟨hcopy, hres⟩
    · exact hm
    rcases hnot with h | h
    · rw [hcopy] at h
      cases h
    · rw [hres] at h
      cases h
  -- it has returned, so it has stamped the certificate
  have hres : u.prog.result?.isSome := by
    rcases hnot with h | h
    · rw [hknown.loaded hminted] at h
      cases h
    · exact h
  obtain ⟨r, hr⟩ := Option.isSome_iff_exists.1 hres
  have hlinked : (progress u.hist).linked = true := by
    rcases (hT.post_of_result hu hr).linked (by rw [hof]; rfl) hminted with h | h
    · exact h
    · exact hknown.linked h
  obtain ⟨row, hrow, hsome⟩ := hknown.superseded hlinked
  rw [hsup row hrow] at hsome
  cases hsome

theorem sum_renewingCount_eq_zero {l : List SysThread} (h : ∀ u ∈ l, renewing t c u = false) :
    (l.map (renewingCount t c)).sum = 0 := by
  refine sum_eq_zero fun n hn => ?_
  obtain ⟨u, hu, rfl⟩ := mem_map.1 hn
  simp [renewingCount, h u hu]

theorem renewingCount_le_one (u : SysThread) : renewingCount t c u ≤ 1 := by
  unfold renewingCount
  split <;> omega

theorem renewingCount_fresh (call : Call) (s : Database) :
    renewingCount t c ⟨Config.fresh call s, p⟩ = 0 := by
  simp [renewingCount, renewing, underWay, Progress.start]

theorem renewingCount_resume (p : Prog Env Database Ev Call (Except Err Value))
    (hrun : th.prog.result? = none) :
    renewingCount t c ⟨th.toRecord, p⟩ ≤ renewingCount t c th := by
  by_cases h : renewing t c ⟨th.toRecord, p⟩ = true
  · obtain ⟨hof, hdone⟩ := renewing_iff.1 h
    have hth : renewing t c th = true := renewing_iff.2 ⟨hof, hdone.imp_right fun h => ⟨h.1, hrun⟩⟩
    simp [renewingCount, h, hth]
  · simp [renewingCount, h]

theorem oneRenewal_step (hT : (certificates P fun c => renewalStep c).Tracked cfg)
    (hI : OneRenewal t c cfg) (hreads : ReadsIdle cfg (.run i e))
    (hstamps : StampsHold cfg (.run i e)) (hth : cfg.threads[i]? = some th)
    (hrun : th.prog.result? = none) (hev : cfg.emits i e = some ev)
    (hok : Happens e cfg.store ev s' ∧ Protocol P th.call (progress th.hist) ev) :
    OneRenewal t c ⟨s', cfg.threads.set i ⟨th.toRecord.push ev, p⟩⟩ := by
  obtain ⟨hhap, hproto⟩ := hok
  have hmem := mem_of_getElem? hth
  have hcall : renewalStep th.call := (hT th hmem).1
  refine ⟨?_, ?_⟩
  · intro u hu hof
    rcases mem_or_eq_of_mem_set hu with hu | rfl
    · exact (hI.known u hu hof).stable hcall hhap.effect hproto
    show RenewalOf t c (progress (th.hist ++ [ev])) s'
    rw [progress_push]
    exact (hI.known th hmem hof).step hcall hof hhap hproto (hstamps ev hev)
  show ((cfg.threads.set i ⟨th.toRecord.push ev, p⟩).map (renewingCount t c)).sum ≤ 1
  have hsum := sum_map_set (renewingCount t c) hth ⟨th.toRecord.push ev, p⟩
  have hone := hI.one
  by_cases hnew : renewing t c ⟨th.toRecord.push ev, p⟩ = true
  · rcases renewing_of_push hproto hrun hnew with hold | ⟨hnone, r, rfl⟩
    · -- it was renewing before
      have hbefore : renewingCount t c th = 1 := by simp [renewingCount, hold]
      have hafter := renewingCount_le_one (t := t) (c := c) ⟨th.toRecord.push ev, p⟩
      omega
    · -- it reads the certificate now, and nobody else has
      obtain ⟨hsup, hidle⟩ := hreads (t, c) (by rw [hev]; rfl)
      have hzero := sum_renewingCount_eq_zero (not_renewing_of_idle hT hI hsup hidle)
      have hafter := renewingCount_le_one (t := t) (c := c)
        ⟨th.toRecord.push (.getCertificate t c r), p⟩
      omega
  · have hafter : renewingCount t c ⟨th.toRecord.push ev, p⟩ = 0 := by
      simp [renewingCount, hnew]
    omega

theorem length_renewalsOf_le (hI : OneRenewal t c cfg) : (renewalsOf cfg t c).length ≤ 1 := by
  have hsum : ∀ l : List SysThread, (∀ u ∈ l, u ∈ cfg.threads) →
      (l.flatMap fun th => if th.call.renews? = some (t, c) then (progress th.hist).minted
        else []).length ≤ (l.map (renewingCount t c)).sum := by
    intro l
    induction l with
    | nil => simp
    | cons u l ih =>
      intro hl
      have hrest := ih fun v hv => hl v (mem_cons_of_mem u hv)
      have hu : (if u.call.renews? = some (t, c) then (progress u.hist).minted
          else []).length ≤ renewingCount t c u := by
        split
        · next hof =>
          have hlen := (hI.known u (hl u mem_cons_self) hof).length_minted
          by_cases hm : (progress u.hist).minted = []
          · simp [hm]
          · have hren : renewing t c u = true := renewing_iff.2 ⟨hof, .inl hm⟩
            simpa [renewingCount, hren] using hlen
        · exact Nat.zero_le _
      simp only [flatMap_cons, length_append, map_cons, sum_cons]
      omega
  exact (hsum cfg.threads fun u hu => hu).trans hI.one

/-- In every run in which renewals read only certificates that have no successor and that
nobody is renewing, and in which no stamp fails, a certificate is renewed at most once. -/
theorem renewed_at_most_once (P : Platform) (db : Database) (as : List SysAct)
    (hcalls : ∀ a ∈ as, a.Calls fun c => renewalCall c)
    (hreads : AllMeet P ReadsIdle db as) (hstamps : AllMeet P StampsHold db as) (t c : Id) :
    (renewalsOf (runFrom P db as) t c).length ≤ 1 := by
  have hops : ∀ a ∈ as, a.Calls fun c => renewalStep c := by
    intro a ha
    refine (hcalls a ha).mono fun c hc => ?_
    cases c <;> first | exact hc | rfl
  have hstart : OneRenewal t c (Config.init db) := by
    refine ⟨fun u hu => ?_, Nat.zero_le 1⟩
    cases hu
  have hend := (Spec.inv_exec (sound_renewalSteps (P := P)) (I := OneRenewal t c) ?_
    (Spec.tracked_init db) hstart hops (Config.meets_and _ hreads hstamps)).2
  · exact length_renewalsOf_le hend
  intro cfg a cfg' hT hI hc hmove
  cases hmove with
  | idle => exact hI
  | spawn c' p hop =>
    refine ⟨fun u hu hof => ?_, ?_⟩
    · rcases mem_append.1 hu with hu | hu
      · exact hI.known u hu hof
      · obtain rfl := mem_singleton.1 hu
        exact .start cfg.store
    · simpa [renewingCount_fresh] using hI.one
  | fork i e th c' p q hth hrun hstarts =>
    refine ⟨fun u hu hof => ?_, ?_⟩
    · rcases mem_append.1 hu with hu | hu
      · rcases mem_or_eq_of_mem_set hu with hu | rfl
        · exact hI.known u hu hof
        · exact hI.known th (mem_of_getElem? hth) hof
      · obtain rfl := mem_singleton.1 hu
        exact .start cfg.store
    have hsum := sum_map_set (renewingCount t c) hth ⟨th.toRecord, p⟩
    have hless := renewingCount_resume (t := t) (c := c) p hrun
    have hone := hI.one
    simp only [map_append, sum_append, map_cons, map_nil,
      sum_cons, sum_nil, renewingCount_fresh]
    omega
  | step i e th ev s' p hth hrun hev hok =>
    exact oneRenewal_step hT hI hc.1 hc.2 hth hrun hev hok

end Run

/-! ## Revoked certificates -/

/-- The calls among which a revoked certificate could be renewed. -/
def revivalCall : Call → Bool
  | .issue _ _ | .renew _ _ | .renewSystem _ _ | .revoke _ _ _ | .runOnce => true
  | _ => false

/-- These calls and the workers of a pass. -/
def revivalStep : Call → Bool
  | .renewOne _ => true
  | c => revivalCall c

/-- A renewal reads no certificate that is stored as revoked. -/
def ReadsUnrevoked (cfg : SysConfig) : SysAct → Prop
  | .spawn _ => True
  | .run i e => ∀ x ∈ (cfg.emits i e).bind Ev.loads?, cfg.store.status? x.1 x.2 ≠ some .revoked

instance (cfg : SysConfig) : DecidablePred (ReadsUnrevoked cfg)
  | .spawn _ => .isTrue trivial
  | .run _ _ => inferInstanceAs (Decidable (∀ _ ∈ _, _))

/-- A renewal of a certificate that was revoked when it began has not read it, and the
certificate is still revoked. -/
def NotRevived (u : Record Database Ev Call) (s : Database) : Prop :=
  ∀ t c, u.call.renews? = some (t, c) → u.born.status? t c = some .revoked →
    s.status? t c = some .revoked ∧ (progress u.hist).copy = none ∧ (progress u.hist).minted = []

theorem notRevived_fresh (call : Call) (s : Database) : NotRevived (Config.fresh call s) s := by
  intro t c _ hrev
  exact ⟨hrev, rfl, rfl⟩

theorem not_rewrites_of_revivalStep {call : Call} (h : revivalStep call) : ¬ call.Rewrites := by
  intro hrw
  cases call <;> first | exact hrw | cases h

theorem sound_revivalSteps {P : Platform} : (certificates P fun c => revivalStep c).Sound
    fun c => (body P c).run := by
  refine sound_certificates P ?_ (fun _ _ => rfl)
  intro c hc
  cases c <;> trivial

theorem NotRevived.step {P : Platform} {u : Record Database Ev Call} {s s' : Database} {ev : Ev}
    (h : NotRevived u s) (hproto : Protocol P u.call (progress u.hist) ev)
    (hreads : ∀ x ∈ ev.loads?, s.status? x.1 x.2 ≠ some .revoked)
    (hkeep : ∀ t c, s.status? t c = some .revoked → s'.status? t c = some .revoked) :
    NotRevived (u.push ev) s' := by
  intro t c hof hrev
  rw [Record.push_call] at hof
  rw [Record.push_hist, progress_push]
  obtain ⟨hstored, hcopy, hminted⟩ := h t c hof hrev
  refine ⟨hkeep t c hstored, ?_, ?_⟩
  · rcases ((progress u.hist).steps ev).copy with hsame | ⟨t1, id1, row, rfl, -⟩
    · rw [hsame]
      exact hcopy
    · -- the certificate it would read is revoked
      have htarget := hproto.2.2
      rw [Call.target?_of_renews? hof] at htarget
      cases htarget
      exact absurd hstored (hreads (t, c) rfl)
  rcases ((progress u.hist).steps ev).minted with hsame | ⟨row, rfl, -⟩
  · rw [hsame]
    exact hminted
  · -- it cannot mint before it has read
    have hloaded := hproto.2.loaded (by rw [hof]; rfl)
    rw [hcopy] at hloaded
    cases hloaded

/-- A certificate that is revoked when a renewal begins is not renewed by it, in every run in
which renewals read no revoked certificate and no stale status is written back. -/
theorem not_revived (P : Platform) (db : Database) (as : List SysAct)
    (hcalls : ∀ a ∈ as, a.Calls fun c => revivalCall c)
    (hreads : AllMeet P ReadsUnrevoked db as) (hstale : AllMeet P NoStaleWriteBack db as)
    (th : SysThread) (hth : th ∈ (runFrom P db as).threads) (t c : Id)
    (hof : th.call.renews? = some (t, c)) (hrev : th.born.status? t c = some .revoked) :
    (progress th.hist).minted = [] := by
  have hops : ∀ a ∈ as, a.Calls fun c => revivalStep c := by
    intro a ha
    refine (hcalls a ha).mono fun c hc => ?_
    cases c <;> first | exact hc | rfl
  have hend := (Spec.modular_exec (sound_revivalSteps (P := P)) (I := fun _ => True)
    (L := NotRevived) ?_ ?_ ?_ (Spec.tracked_init db) trivial (fun u hu => by cases hu) hops
    (Config.meets_and _ hreads hstale)).2
  · exact (hend th hth t c hof hrev).2.2
  · exact fun cfg c _ _ _ _ => notRevived_fresh c cfg.store
  · exact fun cfg i e th c _ _ _ _ _ _ => notRevived_fresh c cfg.store
  intro cfg i e th ev s' hc hth hop hev hok _ hL
  have hdel : ¬ th.call.Rewrites := not_rewrites_of_revivalStep hop
  have hkeep : ∀ t c, cfg.store.status? t c = some .revoked → s'.status? t c = some .revoked :=
    fun t c => revoked_pool_step hc.2 hth hdel hev hok
  refine ⟨trivial, ?_, ?_⟩
  · refine (hL th (mem_of_getElem? hth)).step hok.2 ?_ hkeep
    exact fun x hx => hc.1 x (by rw [hev]; exact hx)
  intro u hu t c hof hrev
  obtain ⟨hstored, hrest⟩ := hL u hu t c hof hrev
  exact ⟨hkeep t c hstored, hrest⟩

/-! ## Schedules of the sample deployment -/

namespace Sample

/-- A renewal from its arrival to its return. -/
def renewOnce : List SysAct := .spawn (.renew admin 4) :: steps 0 21 10

/-- A second one after it. -/
def renewAgain : List SysAct := .spawn (.renew admin 4) :: steps 1 21 20

/-- A user without any permission. -/
def stranger : Subjects := ⟨1, "eve", [], ""⟩

/-- A `Revoke` from its arrival to its return, and then a renewal that is refused. -/
def revokeThenRefused : List SysAct := revokeAlone ++ .spawn (.renew stranger 4) :: steps 1 9 30

/-- A `Revoke` from its arrival to its return, and then a renewal. -/
def revokeThenRenew : List SysAct := revokeAlone ++ .spawn (.renew admin 4) :: steps 1 21 30

end Sample

open Sample

set_option maxRecDepth 4000 in
/-- One renewal. -/
theorem renewed_at_most_once_by_renew :
    (renewalsOf (runFrom platform database renewOnce) 1 4).length ≤ 1 ∧
      (renewalsOf (runFrom platform database renewOnce) 1 4).map
        IssuedCertificate.id = [10] := by
  refine ⟨?_, by decide⟩
  exact renewed_at_most_once platform database renewOnce (by decide)
    (by decide) (by decide) 1 4

set_option maxRecDepth 4000 in
/-- A certificate that has been renewed is renewed again by a second `Renew`. -/
theorem renewed_twice :
    ¬ ∀ (P : Platform) (db : Database) (as : List SysAct),
      (∀ a ∈ as, a.Calls fun c => renewalCall c) → ∀ t c,
      (∃ row, db.certificate? t c = some row ∧ row.kind = some .svid) →
      (renewalsOf (runFrom P db as) t c).length ≤ 1 := by
  intro h
  have hone := h platform database (renewOnce ++ renewAgain)
    (by decide) 1 4 ⟨certRow, rfl, rfl⟩
  have htwo : (renewalsOf (runFrom platform database
      (renewOnce ++ renewAgain)) 1 4).length = 2 := by
    decide
  omega

set_option maxRecDepth 4000 in
/-- A renewal of a revoked certificate that is refused before the certificate is read. -/
theorem not_revived_when_refused :
    ∃ th ∈ (runFrom platform database revokeThenRefused).threads,
      th.call = .renew stranger 4 ∧ th.born.status? 1 4 = some .revoked ∧
      (progress th.hist).minted = [] := by
  have hthread : (runFrom platform database revokeThenRefused).threads[1]?.map
      (fun th => (th.call, th.born.status? 1 4)) =
        some (.renew stranger 4, some .revoked) := by
    decide
  obtain ⟨th, hth, hrec⟩ := Option.map_eq_some_iff.1 hthread
  obtain ⟨hcall, hrev⟩ := Prod.mk.inj hrec
  have hmem := mem_of_getElem? hth
  refine ⟨th, hmem, hcall, hrev, ?_⟩
  exact not_revived platform database revokeThenRefused (by decide)
    (by decide) (by decide) th hmem 1 4 (by rw [hcall]; rfl) hrev

set_option maxRecDepth 4000 in
/-- A `Renew` that begins after the `Revoke` has returned renews the revoked certificate. -/
theorem revoked_renewed :
    ¬ ∀ (P : Platform) (db : Database) (as : List SysAct),
      (∀ a ∈ as, a.Calls fun c => revivalCall c) →
      ∀ th ∈ (runFrom P db as).threads, ∀ t c, th.call.renews? = some (t, c) →
      th.born.status? t c = some .revoked → (progress th.hist).minted = [] := by
  intro h
  have hthread : (runFrom platform database revokeThenRenew).threads[1]?.map
      (fun th => (th.call, th.born.status? 1 4, (progress th.hist).minted.length)) =
        some (.renew admin 4, some .revoked, 1) := by
    decide
  obtain ⟨th, hth, hrec⟩ := Option.map_eq_some_iff.1 hthread
  simp only [Prod.mk.injEq] at hrec
  obtain ⟨hcall, hrev, hlen⟩ := hrec
  have hnone := h platform database revokeThenRenew (by decide) th
    (mem_of_getElem? hth) 1 4 (by rw [hcall]; rfl) hrev
  rw [hnone] at hlen
  cases hlen

end Lcm
