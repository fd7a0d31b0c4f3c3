import Lcm.Access

/-!
# Sharing

`Grant` and `Revoke` of `authz/grants.go`: who holds `share` on a resource hands out relations
on it, no stronger than the strongest one held, to a user, a role or the whole tenant. The
bound compares ranks, while permissions are the union over all grants that reach the caller;
`has_of_rank` says why the rank is enough.
-/

namespace Lcm.Authz

open Conc Db Svc

/-! ## The model -/

/-- `rank`: the order of the relations; no relation is below all of them. -/
def rank : Option Relation → Nat
  | some .owner => 4
  | some .editor => 3
  | some .sharer => 2
  | some .viewer => 1
  | none => 0

/-- The strongest relation held, which `decide` finds along with the permissions. -/
def strongest (s : Subjects) (grants : List Grant) (now : Time) : Option Relation :=
  (grants.filter fun g => «matches» g s now).foldl
    (fun r g => if rank (some g.relation) > rank r then some g.relation else r)
    (if s.isAdmin then some .owner else none)

/-- `resolve`, with the strongest relation as well. -/
def resolveHeld (s : Subjects) (resourceType : ResourceType) (resourceID : Id) :
    Svc (Permissions × Option Relation) := do
  locate s.tenantID resourceType resourceID
  let grants ← fetch (Sql.grantsOnResource s.tenantID resourceType resourceID)
  let now ← Svc.now
  pure (decide s grants now, strongest s grants now)

structure GrantInput where
  resourceType : ResourceType
  resourceID : Id
  subjectType : SubjectType
  subjectID : String
  relation : Relation
  expiresAt : Option Time
deriving DecidableEq

/-- `validate`: the subject is named unless it is the tenant, and an expiry is still to come. -/
def GrantInput.validate (input : GrantInput) (now : Time) : Bool :=
  (match input.subjectType with
    | .tenant => input.subjectID == ""
    | .user | .role => input.subjectID != "" && input.subjectID.utf8ByteSize ≤ 128) &&
  input.expiresAt.all fun t => Decidable.decide (now < t)

/-- The errors of `Grant` besides those of the store and `ErrForbidden`. -/
inductive GrantError where
  /-- `ErrInput` -/
  | input
  /-- `ErrAboveGranter` -/
  | aboveGranter
deriving DecidableEq

/-- The row `Grant` stores; the store sets the time. -/
def grantRow (s : Subjects) (input : GrantInput) (id : Id) : Grant where
  id := id
  tenantID := s.tenantID
  resourceType := input.resourceType
  resourceID := input.resourceID
  subjectType := input.subjectType
  subjectID := input.subjectID
  relation := input.relation
  grantedBy := if s.userID = "" then none else some s.userID
  grantedAt := 0
  expiresAt := input.expiresAt

def grant (s : Subjects) (input : GrantInput) : Svc (Except GrantError Grant) := do
  let now ← Svc.now
  if input.validate now = false then pure (.error .input)
  else
    let (perms, held) ← resolveHeld s input.resourceType input.resourceID
    if perms.share = false then fail .forbidden
    else if rank (some input.relation) > rank held then pure (.error .aboveGranter)
    else
      let id ← newID
      let g ← repo (fun _ => .writeGrants) (Sql.upsertGrant (grantRow s input id))
      pure (.ok g)

def revoke (s : Subjects) (grantID : Id) : Svc Unit := do
  let r ← attempt (fetch (Sql.getGrant s.tenantID grantID))
  match r with
  | .error e => fail (notFound e)
  | .ok g =>
    let (perms, _) ← resolveHeld s g.resourceType g.resourceID
    if perms.share = false then fail .forbidden
    else
      let r ← attempt (repo (fun _ => .writeGrants) (Sql.deleteGrant s.tenantID grantID))
      match r with
      | .error e => fail (notFound e)
      | .ok () => pure ()

/-! ## Ranks and permissions -/

variable {a : Action} {r : Relation} {subj : Subjects} {id : Id} {grants : List Grant}

/-- A relation of lower rank carries no permission the higher one lacks, `share` apart: an
editor ranks above a sharer. -/
theorem has_of_rank {r' : Relation} (h : rank (some r) ≤ rank (some r')) (ha : has (of r) a = true)
    : has (of r') a = true ∨ a = .share := by
  cases r <;> cases r' <;> cases a <;> simp_all [rank, has, of]

/-- What the strongest relation carries is among the permissions: both are found in one pass
over the grants. -/
theorem has_of_strongest {now : Time} (h : strongest subj grants now = some r)
    (ha : has (of r) a = true) : has (decide subj grants now) a = true := by
  have hfold : ∀ (gs : List Grant) (r0 : Option Relation) (p0 : Permissions),
      (∀ x, r0 = some x → has (of x) a = true → has p0 a = true) →
      ∀ x, gs.foldl (fun r g => if rank (some g.relation) > rank r then some g.relation else r)
          r0 = some x → has (of x) a = true →
        has (gs.foldl (fun p g => union p (of g.relation)) p0) a = true := by
    intro gs
    induction gs with
    | nil => exact fun r0 p0 h0 => h0
    | cons g gs ih =>
      intro r0 p0 h0
      refine ih _ _ ?_
      intro x hx hax
      rw [has_union, Bool.or_eq_true]
      dsimp only at hx
      split at hx
      · cases hx
        exact .inr hax
      · exact .inl (h0 x hx hax)
  refine hfold _ _ _ ?_ r h ha
  intro x hx hax
  cases hadmin : subj.isAdmin with
  | true => exact has_owner a
  | false => simp [hadmin] at hx

theorem has_of_bound {now : Time} (hshare : has (decide subj grants now) .share = true)
    (hrank : rank (some r) ≤ rank (strongest subj grants now)) (ha : has (of r) a = true) :
    has (decide subj grants now) a = true := by
  cases hheld : strongest subj grants now with
  | none =>
    rw [hheld] at hrank
    cases r <;> simp [rank] at hrank
  | some r' =>
    rw [hheld] at hrank
    rcases has_of_rank hrank ha with h | rfl
    · exact has_of_strongest hheld h
    · exact hshare

/-! ## The calls, run alone -/

section Alone

variable {e : Nat → Env} {n : Nat} {s : Database} {input : GrantInput}

/-- What is known once `Grant` or `Revoke` has looked: the caller's permissions, and that they
cover every relation up to the strongest one held. -/
theorem ends_resolveHeld {type : ResourceType}
    {Q : Nat → Database → Except Err (Permissions × Option Relation) → Prop}
    (herr : ∀ k err, Q k s (.error err))
    (hok : ∀ p held, (∀ a, has p a = true ↔ Permitted s subj type id a (e (n + 2)).clock) →
      (∀ r, p.share = true → rank (some r) ≤ rank held →
        ∀ a, has (of r) a = true → has p a = true) → Q (n + 3) s (.ok (p, held))) :
    Ends e Q (resolveHeld subj type id) n s := by
  unfold resolveHeld
  rw [ends_bind]
  refine ends_locate (fun err => herr _ err) fun hloc => ?_
  show Ends e Q _ (n + 1) s
  rw [ends_bind, ends_fetch (Sql.readOnly_grantsOnResource _ _ _)]
  split
  · next h =>
    refine hok _ _ (fun a => granted_iff (mem_grantsOnResource h) hloc) ?_
    exact fun r hshare hrank a ha => has_of_bound hshare hrank ha
  · exact herr _ _

/-- The stored grant says what was asked for. -/
def Says (t : Id) (input : GrantInput) (g : Grant) : Prop :=
  On t input.resourceType input.resourceID g ∧ g.subjectType = input.subjectType ∧
    g.subjectID = input.subjectID ∧ g.relation = input.relation ∧ g.expiresAt = input.expiresAt

/-- What a successful `Grant` has done: the caller held `share` and all it handed out, and every
grant now in the table was there before or says what was asked for. -/
structure Handed (subj : Subjects) (input : GrantInput) (now : Time) (s s' : Database) : Prop where
  share : Permitted s subj input.resourceType input.resourceID .share now
  held : ∀ a, has (of input.relation) a = true →
    Permitted s subj input.resourceType input.resourceID a now
  table : ∃ grants, s' = { s with grants } ∧ ∀ g ∈ grants.rows,
    g ∈ s.grants.rows ∨ Says subj.tenantID input g

theorem says_of_same {g : Grant} (hsame : Sql.SameGrant (grantRow subj input id) g)
    (hrel : g.relation = input.relation) (hexp : g.expiresAt = input.expiresAt) :
    Says subj.tenantID input g := by
  simp only [Sql.SameGrant, Bool.and_eq_true, beq_iff_eq] at hsame
  obtain ⟨⟨⟨⟨ht, hty⟩, hid⟩, hst⟩, hsub⟩ := hsame
  exact ⟨⟨ht, hty, hid⟩, hst, hsub, hrel, hexp⟩

theorem ends_grant (subj : Subjects) (input : GrantInput) :
    Ends e (fun _ s' r => (s' = s ∧ ∀ g, r ≠ .ok (.ok g)) ∨
        Handed subj input (e (n + 3)).clock s s' ∧
          ∃ g, r = .ok (.ok g) ∧ Says subj.tenantID input g)
      (grant subj input) n s := by
  have herr : ∀ err g, (.error err : Except Err (Except GrantError Grant)) ≠ .ok (.ok g) := by
    rintro err g ⟨⟩
  have hrefused : ∀ err g, (.ok (.error err) : Except Err (Except GrantError Grant)) ≠
      .ok (.ok g) := by
    rintro err g ⟨⟩
  unfold grant Svc.now newID
  rw [ends_ask_bind]
  refine ends_ite (fun _ => .inl ⟨rfl, hrefused _⟩) fun _ => ?_
  rw [ends_bind]
  refine ends_resolveHeld (fun _ _ => .inl ⟨rfl, herr _⟩) fun p held hp hbound => ?_
  refine ends_ite (fun _ => .inl ⟨rfl, herr _⟩) fun hshare => ?_
  refine ends_ite (fun _ => .inl ⟨rfl, hrefused _⟩) fun hrank => ?_
  rw [ends_ask_bind, ends_bind, ends_repo]
  split
  · next hr =>
    obtain ⟨ss, hm, hdb⟩ := transact_ok hr
    obtain ⟨table, htable, hrows⟩ := Sql.upsertGrant_rows hm
    have hshare' : p.share = true := by simpa using hshare
    refine .inr ⟨⟨(hp .share).1 hshare', ?_, table, hdb.trans htable, ?_⟩, ?_⟩
    · exact fun a ha => (hp a).1 (hbound _ hshare' (Nat.le_of_not_lt hrank) a ha)
    · intro o ho
      exact (hrows o ho).imp_right fun ⟨hsame, hrel, hexp⟩ => says_of_same hsame hrel hexp
    refine ⟨_, rfl, ?_⟩
    rcases Sql.upsertGrant_ok hm with ⟨o, ho, rfl, -⟩ | ⟨-, rfl, -⟩
    · have hsame := List.find?_some ho
      exact says_of_same hsame rfl rfl
    · exact ⟨⟨rfl, rfl, rfl⟩, rfl, rfl, rfl, rfl⟩
  · next hr => exact .inl ⟨transact_error hr, herr _⟩

theorem ends_revoke (subj : Subjects) (grantID : Id) :
    Ends e (fun _ s' _ => ∃ grants, s' = { s with grants } ∧
        ∀ g ∈ grants.rows, g ∈ s.grants.rows) (revoke subj grantID) n s := by
  have hsame : ∃ grants, s = { s with grants } ∧ ∀ g ∈ grants.rows, g ∈ s.grants.rows :=
    ⟨s.grants, rfl, fun _ h => h⟩
  unfold revoke
  rw [ends_bind, ends_attempt, ends_fetch (m := Sql.getGrant _ _) (Sql.readOnly_query _)]
  cases (transact (Sql.getGrant subj.tenantID grantID) (e n) s).1 with
  | error err => exact hsame
  | ok g =>
    show Ends e _ _ (n + 1) s
    rw [ends_bind]
    refine ends_resolveHeld (fun _ _ => hsame) fun p held _ _ => ?_
    refine ends_ite (fun _ => hsame) fun _ => ?_
    rw [ends_bind, ends_attempt, ends_repo]
    dsimp only
    split
    · next hr =>
      rw [transact_error hr]
      exact hsame
    · next hr =>
      obtain ⟨ss, hm, hdb⟩ := transact_ok hr
      obtain ⟨-, -, rfl⟩ := Sql.deleteRow_ok hm
      refine ⟨_, hdb, ?_⟩
      intro o ho
      exact List.mem_of_mem_filter ho

end Alone

end Lcm.Authz
