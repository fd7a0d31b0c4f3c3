import Lcm.Store.Repos

/-!
# What the statements keep

Rules for the statements of the repository: which only read (`Sql.ReadOnly`), what relation
between the database before and after they keep, and what invariant (`holds_*`).
-/

namespace Lcm

open Db Tx

/-- The transaction writes nothing. -/
def Sql.ReadOnly {α : Type} (m : Sql α) : Prop := Keeps Eq m

namespace Sql

variable {α β : Type}

theorem holds_query_any {I : Database → Prop} (f : Database → Except Err α) :
    Holds I (fun _ => True) (query f : Sql α) := Holds.query fun _ _ _ _ => trivial

theorem readOnly_query (f : Database → Except Err α) : ReadOnly (query f : Sql α) :=
  Keeps.of_holds (fun _ => rfl) fun _ => holds_query_any f

theorem readOnly_ask_query {τ : Type} (a : Env → τ) (f : τ → Database → Except Err α) :
    ReadOnly (do let t ← ask a; query (f t) : Sql α) := by
  refine Keeps.of_holds (fun _ => rfl) fun _ => ?_
  exact Holds.bind (Q := fun _ => True) (Holds.ask fun _ => trivial) fun t _ =>
    holds_query_any (f t)

theorem readOnly_getIssuer (t id : Id) : ReadOnly (getIssuer t id) := readOnly_query _

theorem readOnly_defaultIssuer (t : Id) (td : String) : ReadOnly (defaultIssuer t td) :=
  readOnly_query _

theorem readOnly_countedIssuer (t id : Id) : ReadOnly (countedIssuer t id) := readOnly_query _

theorem readOnly_getCA (t id : Id) : ReadOnly (getCA t id) := readOnly_query _

theorem readOnly_casForDomain (t : Id) (td : String) : ReadOnly (casForDomain t td) :=
  readOnly_ask_query _ _

theorem readOnly_caByState (t : Id) (td : String) (st : CAState) : ReadOnly (caByState t td st) :=
  readOnly_ask_query _ _

theorem readOnly_getRequest (t id : Id) : ReadOnly (getRequest t id) := readOnly_query _

theorem readOnly_getJob (t id : Id) : ReadOnly (getJob t id) := readOnly_query _

theorem readOnly_getCertificate (t id : Id) : ReadOnly (getCertificate t id) := readOnly_query _

theorem readOnly_listRevocations (t : Id) (cursor : Time) (n : Nat) :
    ReadOnly (listRevocations t cursor n) := readOnly_ask_query _ _

theorem readOnly_grantsOnResource (t : Id) (ty : ResourceType) (id : Id) :
    ReadOnly (grantsOnResource t ty id) := readOnly_ask_query _ _

theorem readOnly_grantsForSubjects (t : Id) (userID : String) (roles : List String) (now : Time) :
    ReadOnly (grantsForSubjects t userID roles now) := readOnly_ask_query _ _

section Holds

variable {P : Platform} {I : Database → Prop} {Q : Unit → Prop} {violates : Database → Bool}
  {ρ : Type}

theorem holds_draw_any {α : Type} (f : Env → Nat → α) :
    Holds I (fun _ => True) (draw f : Sql α) := Holds.draw fun _ _ => trivial

theorem holds_ofExcept_any {α : Type} (r : Except Err α) :
    Holds I (fun _ => True) (ofExcept r : Sql α) := Holds.ofExcept fun _ _ => trivial

theorem holds_checked {ok : Bool} {m : Sql Unit} (hm : ok = true → Holds I Q m) :
    Holds I Q (checked ok m) := by
  refine Holds.ite hm fun _ => ?_
  exact Holds.stmt fun s s' a _ h => by cases h

theorem holds_insertRow {key : ρ → Id} {get : Database → Table key}
    {set : Database → Table key → Database} {err : Err} {r : ρ}
    (hset : ∀ s t, I s → violates s = false → (get s).insert? r = some t → I (set s t) ∧ Q ()) :
    Holds I Q (insertRow get set violates err r) := by
  refine Holds.stmt fun s s' a hI h => ?_
  split at h
  · cases h
  rename_i hv
  split at h
  · cases h
  rename_i t ht
  cases h
  exact hset s t hI (by simpa using hv) ht

theorem holds_insertRow_any {key : ρ → Id} {get : Database → Table key}
    {set : Database → Table key → Database} {err : Err} {r : ρ}
    (hadd : ∀ s t, (get s).rows <+: t.rows → I s → I (set s t)) :
    Holds I (fun _ => True) (insertRow get set violates err r) := by
  refine holds_insertRow fun s t hI _ ht => ⟨hadd s t ?_ hI, trivial⟩
  rw [(Table.insert?_eq_some ht).2]
  exact List.prefix_append _ _

theorem holds_insertCertificate_any
    (hadd : ∀ s t, s.certificates.rows <+: t.rows → I s → I { s with certificates := t })
    (c : IssuedCertificate) : Holds I (fun _ => True) (insertCertificate c) := by
  refine Holds.bind (Q := fun _ => True) (Holds.ask fun _ => trivial) fun now _ => ?_
  exact holds_checked fun _ => holds_insertRow_any hadd

theorem holds_updateRow {key : ρ → Id} {get : Database → Table key}
    {set : Database → Table key → Database} {tenant : ρ → Id} {t id : Id} {f : ρ → ρ}
    {hf : ∀ r, key (f r) = key r} (hset : ∀ s, I s → I (set s ((get s).update id f hf))) :
    Holds I (fun _ => True) (updateRow get set tenant t id f hf) := by
  refine Holds.stmt fun s s' a hI h => ?_
  split at h
  · cases h
  · cases h
    exact ⟨hset s hI, trivial⟩

theorem holds_insertIssuer {i : Issuer}
    (hset : ∀ s t, I s → issuerChecks i = true → issuerClash P i s = false →
      s.issuers.insert? { i with updatedBy := i.createdBy } = some t →
      I { s with issuers := t } ∧ Q ()) : Holds I Q (insertIssuer P i) :=
  holds_checked fun hok => holds_insertRow fun s t hI hv ht => hset s t hI hok hv ht

theorem holds_updateIssuer {i : Issuer}
    (hset : ∀ s old, I s → s.issuers.get? i.id = some old → old.tenantID = i.tenantID →
      issuerChecks i = true → issuerClash P i s = false →
      I { s with issuers := s.issuers.update i.id i.write fun _ => rfl }) :
    Holds I (fun _ => True) (updateIssuer P i) := by
  refine Holds.stmt fun s s' a hI h => ?_
  split at h
  · cases h
  rename_i old hold
  rw [Option.filter_eq_some_iff] at hold
  split at h
  · cases h
  rename_i hchecks
  split at h
  · cases h
  rename_i hv
  cases h
  exact ⟨hset s old hI hold.1 (by simpa using hold.2) (by simpa using hchecks)
    (by simpa using hv), trivial⟩

theorem holds_clearDefaultIssuer {t : Id} {td : String} {id : Id}
    (hset : ∀ s, I s → I { s with
      issuers := s.issuers.map (undefault t td id) (undefault_id t td id) }) :
    Holds I (fun _ => True) (clearDefaultIssuer t td id) := by
  refine Holds.stmt fun s s' a hI h => ?_
  cases h
  exact ⟨hset s hI, trivial⟩

theorem holds_deleteIssuer {t id : Id}
    (hset : ∀ s, I s → (∀ c ∈ s.certificates.rows, c.issuerID ≠ id) → I { s with
      issuers := s.issuers.filter fun i => !(i.id == id)
      requests := s.requests.map (unpin id) (unpin_id id) }) :
    Holds I (fun _ => True) (deleteIssuer t id) := by
  refine Holds.stmt fun s s' a hI h => ?_
  split at h
  · cases h
  split at h
  · cases h
  rename_i hfree
  cases h
  refine ⟨hset s hI fun c hc hid => hfree ?_, trivial⟩
  exact List.any_eq_true.2 ⟨c, hc, by simpa using hid⟩

theorem holds_upsertGrant (hgrants : ∀ s t, I s → I { s with grants := t }) (g : Grant) :
    Holds I (fun _ => True) (upsertGrant g) := by
  refine Holds.bind (Q := fun _ => True) (Holds.ask fun _ => trivial) fun now _ => ?_
  refine Holds.stmt fun s s' a hI h => ?_
  split at h
  · cases h
    exact ⟨hgrants _ _ hI, trivial⟩
  split at h
  · cases h
  · cases h
    exact ⟨hgrants _ _ hI, trivial⟩

end Holds

end Sql

end Lcm
