import Lcm.Issuance
import Lcm.Transfer.Invariants

/-!
# The default issuer of a trust domain

An administrator sets a new default in a transaction that clears the old one first, from a flag
read before the transaction; an import clears nothing. What keeps the defaults apart is the unique
index: a second default of the trust domain is a violation, and the transaction is rolled back
with everything it has cleared.

* `one_default_and_failures_keep_it` — no run of the calls makes a second default, and a call
  whose transaction has failed has changed no default.
-/

namespace Lcm

open Conc Db Svc Ca Issue Issuance Database Sql

/-- A tenant has at most one default issuer for a trust domain. -/
def Database.OneDefault (s : Database) : Prop :=
  ∀ i ∈ s.issuers.rows, ∀ j ∈ s.issuers.rows, i.isDefault = true → j.isDefault = true →
    i.tenantID = j.tenantID → i.trustDomain = j.trustDomain → i = j

instance (s : Database) : Decidable s.OneDefault := inferInstanceAs (Decidable (∀ _ ∈ _, _))

/-- The event is a transaction of `CreateIssuer` or `UpdateIssuer` that has returned an error. -/
def Ev.issuerFailed : Ev → Bool
  | insertIssuer _ (.error _) | updateIssuer _ (.error _) => true
  | _ => false

/-- The transaction of the call that writes its issuer has returned an error. -/
def AtomicFailed (t : SysThread) : Prop := ∃ ev ∈ t.hist, ev.issuerFailed = true

instance (t : SysThread) : Decidable (AtomicFailed t) := inferInstanceAs (Decidable (∃ _ ∈ _, _))

variable {i : Issuer}

namespace Defaults

variable {P : Platform} {s s' : Database}

/-! ## The statements -/

theorem id_eq_of_clash {o : Issuer} (h : issuerClash P i s = false) (ho : o ∈ s.issuers.rows)
    (hodef : o.isDefault = true) (hidef : i.isDefault = true) (htenant : o.tenantID = i.tenantID)
    (hdomain : o.trustDomain = i.trustDomain) : o.id = i.id := by
  by_contra hne
  have hclash : issuerClash P i s = true := by
    unfold issuerClash
    refine Bool.or_eq_true_iff.2 (.inr (List.any_eq_true.2 ⟨o, ho, ?_⟩))
    simp [hne, hodef, hidef, htenant, hdomain]
  rw [hclash] at h
  cases h

/-- Two defaults of one trust domain. -/
def DefaultClash (i j : Issuer) : Prop :=
  i.isDefault = true ∧ j.isDefault = true ∧ i.tenantID = j.tenantID ∧ i.trustDomain = j.trustDomain

theorem defaultClash_symm (i j : Issuer) (h : DefaultClash i j) : DefaultClash j i :=
  ⟨h.2.1, h.1, h.2.2.1.symm, h.2.2.2.symm⟩

theorem oneDefault_iff : s.OneDefault ↔ s.issuers.Distinct DefaultClash :=
  ⟨fun h i hi j hj hc => h i hi j hj hc.1 hc.2.1 hc.2.2.1 hc.2.2.2,
    fun h i hi j hj hid hjd ht htd => h i hi j hj ⟨hid, hjd, ht, htd⟩⟩

theorem oneDefault_congr (s s' : Database) (h : s'.issuers = s.issuers) (hs : s.OneDefault) :
    s'.OneDefault := by
  unfold OneDefault
  rw [h]
  exact hs

theorem oneDefault_clear (hs : s.OneDefault) (t : Id) (td : String) (id : Id) :
    OneDefault { s with
      issuers := s.issuers.map (undefault t td id) (undefault_id t td id) } := by
  refine oneDefault_iff.2 ((oneDefault_iff.1 hs).map _ (undefault_id t td id) fun i j hc => ?_)
  -- what is a default afterwards has not been touched
  have hkept : ∀ o, (undefault t td id o).isDefault = true → undefault t td id o = o := by
    intro o hdef
    unfold undefault at hdef ⊢
    split
    · next hclear =>
      rw [if_pos hclear] at hdef
      cases hdef
    · rfl
  rw [hkept i hc.1, hkept j hc.2.1] at hc
  exact hc

theorem oneDefault_insert {t : Table Issuer.id} (hs : s.OneDefault)
    (hclash : issuerClash P i s = false)
    (ht : s.issuers.insert? { i with updatedBy := i.createdBy } = some t) :
    OneDefault { s with issuers := t } := by
  refine oneDefault_iff.2 ((oneDefault_iff.1 hs).insert defaultClash_symm (fun o ho hc => ?_) ht)
  exact id_eq_of_clash hclash ho hc.1 hc.2.1 hc.2.2.1 hc.2.2.2

theorem oneDefault_update {old : Issuer} (hs : s.OneDefault) (hget : s.issuers.get? i.id = some old)
    (htenant : old.tenantID = i.tenantID) (hclash : issuerClash P i s = false) :
    OneDefault { s with issuers := s.issuers.update i.id i.write fun _ => rfl } := by
  refine oneDefault_iff.2
    ((oneDefault_iff.1 hs).update defaultClash_symm hget i.write (fun _ => rfl) fun o ho hc => ?_)
  exact id_eq_of_clash hclash ho hc.1 hc.2.1 (hc.2.2.1.trans htenant) hc.2.2.2

/-! ## The transactions -/

theorem holds_clear (t : Id) (td : String) (id : Id) :
    Tx.Holds OneDefault (fun _ => True) (clearDefaultIssuer t td id) :=
  holds_clearDefaultIssuer fun _ hs => oneDefault_clear hs t td id

theorem holds_insert (i : Issuer) :
    Tx.Holds OneDefault (fun _ => True) (insertIssuer P i) :=
  holds_insertIssuer fun _ _ hs _ hclash ht => ⟨oneDefault_insert hs hclash ht, trivial⟩

theorem holds_update (i : Issuer) :
    Tx.Holds OneDefault (fun _ => True) (updateIssuer P i) :=
  holds_updateIssuer fun _ _ hs hget htenant _ hclash =>
    oneDefault_update hs hget htenant hclash

theorem holds_delete (t id : Id) :
    Tx.Holds OneDefault (fun _ => True) (deleteIssuer t id) :=
  holds_deleteIssuer fun _ hs _ => oneDefault_iff.2 ((oneDefault_iff.1 hs).filter _)

theorem holds_import (subj : Subjects) (doc : Transfer.Document) (mode : String) :
    Tx.Holds OneDefault (fun _ => True) (Transfer.importTx P subj doc mode) :=
  Transfer.holds_importTx_of_issuers (W := fun _ => True) oneDefault_congr (fun _ _ _ _ => trivial)
    (fun _ _ _ _ _ _ => holds_update _) fun _ _ _ _ _ => holds_insert _

/-! ## Runs -/

variable {may : Nat → Env → Database → Prop} {c : Call} {h : Trail Ev} {e : Env} {ev : Ev}

theorem oneDefault_step (hd : Does P may c h e s ev s') (hs : s.OneDefault) : s'.OneDefault :=
  hd.keeps oneDefault_congr holds_clear (fun _ _ _ _ _ _ _ _ => holds_insert _)
    (fun _ _ _ _ _ _ => holds_update _) holds_delete (fun subj doc mode _ => holds_import subj doc mode)
    hs

variable {db : Database} {as : List SysAct}

theorem oneDefault_storeAt (hdb : db.OneDefault)
    (hcalls : ∀ a ∈ as, a.Calls Call.OnIssuance) {n : Nat} (hn : n ≤ as.length) :
    (storeAt P db as n).OneDefault :=
  storeAt_inv (fun _ h => h) hcalls (fun _ _ _ _ _ _ _ hd => oneDefault_step hd) hdb hn

theorem failed_step (hd : Does P may c h e s ev s') (hev : ev.issuerFailed = true) :
    s' = s ∧ ev.WritesIssuers ∧ ((∃ subj input, c = .createIssuer subj input) ∨
      ∃ subj id input, c = .updateIssuer subj id input) := by
  have hbec := hd.because
  unfold Ev.issuerFailed at hev
  split at hev
  · obtain ⟨-, subj, input, _, _, _, _, _, hc, -, -, -, htx⟩ := hbec
    exact ⟨eq_of_transact_error htx, trivial, .inl ⟨subj, input, hc⟩⟩
  · obtain ⟨-, subj, id, input, _, _, _, _, hc, -, -, htx⟩ := hbec
    exact ⟨eq_of_transact_error htx, trivial, .inr ⟨subj, id, input, hc⟩⟩
  · cases hev

/-- A call whose transaction has failed has written no issuer: the transaction is its only step
that could. -/
theorem issuers_of_failed (hcalls : ∀ a ∈ as, a.Calls Call.OnIssuance) {j : Nat} {t : SysThread}
    (ht : (runFrom P db as).threads[j]? = some t) (hfail : AtomicFailed t) {m : Nat}
    (ha : as[m]? = some (.run j e)) :
    (storeAt P db as (m + 1)).issuers = (storeAt P db as m).issuers := by
  obtain ⟨-, h, hmap, hT, -⟩ := trailed (fun _ h => h) hcalls ht
  obtain ⟨failed, hmem, hfailed⟩ := hfail
  rw [← hmap] at hmem
  obtain ⟨⟨m0, failed⟩, hin, rfl⟩ := List.mem_map.1 hmem
  obtain ⟨h1, h2, heq⟩ := List.append_of_mem hin
  obtain ⟨e0, hat0⟩ := stepAt_of_eq hT heq
  obtain ⟨hsame, hwrites, hc⟩ := failed_step hat0.does hfailed
  rcases hT.complete m e (List.getElem?_eq_some_iff.1 ha).1 ha with ⟨ev, hev⟩ | hidle
  · rw [heq, List.mem_append, List.mem_cons] at hev
    rcases hev with hev | hev | hev
    · -- a step before it
      obtain ⟨h3, h4, rfl⟩ := List.append_of_mem hev
      have heq' : h = h3 ++ (m, ev) :: (h4 ++ (m0, failed) :: h2) := by simp [heq]
      obtain ⟨_, hat⟩ := stepAt_of_eq hT heq'
      exact hat.does.issuers_eq (hat0.does.first hwrites hc (m, ev) (by simp))
    · cases hev
      rw [hsame]
    · -- a step after it
      obtain ⟨h3, h4, rfl⟩ := List.append_of_mem hev
      have heq' : h = (h1 ++ (m0, failed) :: h3) ++ (m, ev) :: h4 := by simp [heq]
      obtain ⟨_, hat⟩ := stepAt_of_eq hT heq'
      refine hat.does.issuers_eq fun hw => ?_
      exact hat.does.first hw hc (m0, failed) (by simp) hwrites
  · exact congrArg issuers hidle

end Defaults

open Defaults

/-- In every state of a run every tenant has at most one default issuer for a trust domain, and no
step of a call whose transaction has failed changes the default of any. -/
theorem one_default_and_failures_keep_it {P : Platform} {db : Database} {as : List SysAct}
    (hdb : db.OneDefault) (hcalls : ∀ a ∈ as, a.Calls Call.OnIssuance) :
    (runFrom P db as).store.OneDefault ∧
      ∀ j t, (runFrom P db as).threads[j]? = some t → AtomicFailed t →
        ∀ m e, as[m]? = some (.run j e) → ∀ tenantID trustDomain,
          (storeAt P db as (m + 1)).issuerFor tenantID none trustDomain =
            (storeAt P db as m).issuerFor tenantID none trustDomain := by
  constructor
  · rw [← storeAt_length]
    exact oneDefault_storeAt hdb hcalls (Nat.le_refl _)
  intro j t ht hfail m e ha tenantID trustDomain
  unfold issuerFor
  rw [issuers_of_failed hcalls ht hfail ha]

/-- A new default that is to have the name of the issuer that is there. -/
def sameName : IssuerInput := ⟨"main", "self_signed", "td", true, true, "", "", "", .empty⟩

open Sample

/-- An administrator tries to create it: the fourth step of the call is its transaction. -/
def failedCreate : List SysAct :=
  .spawn (.createIssuer admin sameName) :: steps 0 4 20

theorem one_default_after_failed_create :
    (runFrom platform database failedCreate).store.OneDefault ∧
      ∃ t, (runFrom platform database failedCreate).threads[0]? = some t ∧
        AtomicFailed t ∧
        (storeAt platform database failedCreate 5).issuerFor 1 none "td" =
          (storeAt platform database failedCreate 4).issuerFor 1 none "td" := by
  have hcalls : ∀ a ∈ failedCreate, a.Calls Call.OnIssuance := by
    simp [failedCreate, steps, Act.Calls, Call.OnIssuance]
  obtain ⟨hone, hkeep⟩ := @one_default_and_failures_keep_it platform database
    failedCreate (by decide) hcalls
  have hfail : ((runFrom platform database failedCreate).threads[0]?.any
      fun t => AtomicFailed t) = true := by decide +kernel
  cases ht : (runFrom platform database failedCreate).threads[0]? with
  | none =>
    rw [ht] at hfail
    cases hfail
  | some t =>
    have hfailed : AtomicFailed t := by simpa [ht] using hfail
    exact ⟨hone, t, rfl, hfailed, hkeep 0 t ht hfailed 4 (env 20) rfl 1 "td"⟩

end Lcm
