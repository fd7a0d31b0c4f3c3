import Lcm.Authz

/-!
# What the authorizer decides

* `Permitted` says in terms of the tables who may do what: the resource is one of the caller's
  tenant, and the caller is an administrator or has a grant on it that has not expired.
* `has_decide` and `ends_resolve`: the authorizer finds just that, at the time it looks at its
  clock.
-/

namespace Lcm.Authz

open Db Svc Sql

/-- The resource is one of the tenant's. -/
def Located (s : Database) (t : Id) : ResourceType → Id → Prop
  | .certificate, id => (s.certificate? t id).isSome
  | .issuer, id => ((s.issuers.get? id).filter fun i => i.tenantID == t).isSome

/-- The grant is one on the resource. -/
def On (t : Id) (type : ResourceType) (id : Id) (g : Grant) : Prop :=
  g.tenantID = t ∧ g.resourceType = type ∧ g.resourceID = id

/-- A grant on the resource gives the subjects the permission at `now`. -/
def Granted (s : Database) (subj : Subjects) (type : ResourceType) (id : Id) (a : Action)
    (now : Time) : Prop :=
  ∃ g ∈ s.grants.rows, On subj.tenantID type id g ∧ «matches» g subj now = true ∧
    has (of g.relation) a = true

/-- The subjects hold the permission on the resource at `now`. -/
def Permitted (s : Database) (subj : Subjects) (type : ResourceType) (id : Id) (a : Action)
    (now : Time) : Prop :=
  Located s subj.tenantID type id ∧ (subj.isAdmin = true ∨ Granted s subj type id a now)

section Decidable

variable (s : Database) (subj : Subjects) (t : Id) (type : ResourceType) (id : Id) (a : Action)
  (now : Time)

instance : Decidable (Located s t type id) :=
  match type with
  | .certificate => inferInstanceAs (Decidable ((s.certificate? t id).isSome = true))
  | .issuer =>
    inferInstanceAs (Decidable (((s.issuers.get? id).filter fun i => i.tenantID == t).isSome = true))

instance (g : Grant) : Decidable (On t type id g) :=
  inferInstanceAs (Decidable (_ ∧ _ ∧ _))

instance : Decidable (Granted s subj type id a now) := inferInstanceAs (Decidable (∃ _ ∈ _, _))

instance : Decidable (Permitted s subj type id a now) := inferInstanceAs (Decidable (_ ∧ _))

end Decidable

/-! ## The decision -/

@[simp] theorem has_union (p q : Permissions) (a : Action) :
    has (union p q) a = (has p a || has q a) := by
  cases a <;> rfl

@[simp] theorem has_noPermissions (a : Action) : has noPermissions a = false := by
  cases a <;> rfl

@[simp] theorem has_owner (a : Action) : has (of .owner) a = true := by
  cases a <;> rfl

theorem has_foldl_union (gs : List Grant) (p : Permissions) (a : Action) :
    has (gs.foldl (fun p g => union p (of g.relation)) p) a = true ↔
      has p a = true ∨ ∃ g ∈ gs, has (of g.relation) a = true := by
  induction gs generalizing p with
  | nil => simp
  | cons g gs ih =>
    rw [List.foldl_cons, ih, has_union]
    simp only [Bool.or_eq_true, List.exists_mem_cons_iff, or_assoc]

variable {a : Action} {now : Time} {subj : Subjects} {id : Id} {type : ResourceType}

theorem has_decide {grants : List Grant} :
    has (decide subj grants now) a = true ↔
      subj.isAdmin = true ∨ ∃ g ∈ grants, «matches» g subj now = true ∧
        has (of g.relation) a = true := by
  unfold decide
  rw [has_foldl_union]
  refine or_congr ?_ ?_
  · cases subj.isAdmin <;> simp
  · simp only [List.mem_filter, and_assoc]

/-! ## Who a grant is for -/

/-- The subjects are among those a grant to the given ones is for. -/
def reaches (type : SubjectType) (id : String) (s : Subjects) : Bool :=
  match type with
  | .user => s.userID != "" && id == s.userID
  | .role => s.roles.any fun r => r == id
  | .tenant => true

theorem matches_iff {g : Grant} {s : Subjects} :
    «matches» g s now = true ↔
      (∀ t, g.expiresAt = some t → now < t) ∧ reaches g.subjectType g.subjectID s = true := by
  unfold «matches»
  rw [Bool.and_eq_true]
  refine and_congr ?_ ?_
  · simp [Option.all_eq_true]
  · cases g.subjectType <;> rfl

/-! ## The checks, run alone -/

section Alone

variable {e : Nat → Env} {n : Nat} {s : Database} {Q : Nat → Database → Except Err Unit → Prop}
  {gs : List Grant}

theorem mem_grantsOnResource {t : Id} {e : Env}
    (h : (transact (grantsOnResource t type id) e s).1 = .ok gs) (g : Grant) :
    g ∈ gs ↔ g ∈ s.grants.rows ∧ On t type id g := by
  obtain ⟨ss, hm, -⟩ := transact_ok h
  obtain ⟨tie, ss1, hask, hq⟩ := Tx.bind_ok.1 hm
  obtain ⟨-, rfl⟩ := Tx.ask_ok.1 hask
  obtain ⟨-, hgs, -⟩ := Tx.query_ok.1 hq
  cases hgs
  simp [On, and_assoc]

theorem ends_locate {t : Id} (herr : ∀ err, Q (n + 1) s (.error err))
    (hok : Located s t type id → Q (n + 1) s (.ok ())) : Ends e Q (locate t type id) n s := by
  unfold locate
  rw [ends_bind, ends_attempt]
  cases type with
  | certificate =>
    rw [ends_bind, ends_fetch (readOnly_getCertificate t id)]
    cases h : (transact (getCertificate t id) (e n) s).1 with
    | error err => exact herr (notFound err)
    | ok c => exact hok (Option.isSome_iff_exists.2 ⟨c, found_eq_ok.1 (transact_query_ok h)⟩)
  | issuer =>
    rw [ends_bind, ends_fetch (readOnly_getIssuer t id)]
    cases h : (transact (getIssuer t id) (e n) s).1 with
    | error err => exact herr (notFound err)
    | ok i => exact hok (Option.isSome_iff_exists.2 ⟨i, found_eq_ok.1 (transact_query_ok h)⟩)

theorem granted_iff (hgs : ∀ g, g ∈ gs ↔ g ∈ s.grants.rows ∧ On subj.tenantID type id g)
    (hloc : Located s subj.tenantID type id) :
    has (decide subj gs now) a = true ↔ Permitted s subj type id a now := by
  rw [has_decide]
  unfold Permitted Granted
  simp only [hloc, true_and, hgs, and_assoc]

theorem ends_resolve {Q : Nat → Database → Except Err Permissions → Prop}
    (herr : ∀ k err, Q k s (.error err))
    (hok : ∀ p, (∀ a, has p a = true ↔ Permitted s subj type id a (e (n + 2)).clock) → Q (n + 3) s (.ok p))
    : Ends e Q (resolve subj type id) n s := by
  unfold resolve
  rw [ends_bind]
  refine ends_locate (fun err => herr _ err) fun hloc => ?_
  dsimp only
  rw [ends_bind, ends_fetch (readOnly_grantsOnResource _ _ _)]
  split
  · next h => exact hok _ fun a => granted_iff (mem_grantsOnResource h) hloc
  · exact herr _ _

theorem ends_check (herr : ∀ k err, Q k s (.error err))
    (hok : Permitted s subj type id a (e (n + 2)).clock → Q (n + 3) s (.ok ())) :
    Ends e Q (check subj type id a) n s := by
  unfold check
  rw [ends_bind]
  refine ends_resolve herr fun p hp => ?_
  show Ends e Q (if has p a = true then pure () else fail .forbidden) (n + 3) s
  split
  · next h => exact hok ((hp a).1 h)
  · exact herr _ _

end Alone

/-! ## The checks at a moment -/

section Moment

variable {e : Env} {s : Database} {subj : Subjects} {type : ResourceType} {id : Id} {a : Action}

theorem observe_locate (hfault : e.fault = .ok) (t : Id) (type : ResourceType) (id : Id) :
    observe e s (locate t type id) =
      if Located s t type id then .ok () else .error .resourceNotFound := by
  cases type with
  | certificate =>
    have hquiet : Quiet (do let _ ← fetch (getCertificate t id); pure ()) :=
      only_bind (quiet_fetch (readOnly_getCertificate t id)) fun _ => only_pure ()
    unfold locate
    rw [observe_bind (only_attempt hquiet), observe_attempt, getCertificate, observe_query hfault]
    cases hrow : s.certificate? t id with
    | none => simp [Located, hrow, found, bind, Except.bind, notFound]
    | some c => simp [Located, hrow, found, bind, Except.bind]
  | issuer =>
    have hquiet : Quiet (do let _ ← fetch (getIssuer t id); pure ()) :=
      only_bind (quiet_fetch (readOnly_getIssuer t id)) fun _ => only_pure ()
    unfold locate
    rw [observe_bind (only_attempt hquiet), observe_attempt, getIssuer, observe_query hfault]
    cases hrow : (s.issuers.get? id).filter fun i => i.tenantID == t with
    | none => simp [Located, hrow, found, bind, Except.bind, notFound]
    | some c => simp [Located, hrow, found, bind, Except.bind]

theorem observe_grantsOnResource (hfault : e.fault = .ok) (t : Id) (type : ResourceType) (id : Id) :
    ∃ gs, observe e s (fetch (grantsOnResource t type id)) = .ok gs ∧
      ∀ g, g ∈ gs ↔ g ∈ s.grants.rows ∧ On t type id g := by
  rw [observe_fetch, transact_eq_atomic hfault, grantsOnResource, Tx.atomic_ask_bind,
    Tx.atomic_query]
  refine ⟨_, rfl, fun g => ?_⟩
  simp [On, and_assoc]

theorem observe_resolve (hfault : e.fault = .ok) (subj : Subjects) (type : ResourceType) (id : Id) :
    (Located s subj.tenantID type id ∧ ∃ p, observe e s (resolve subj type id) = .ok p ∧
        ∀ a, has p a = true ↔ Permitted s subj type id a e.clock) ∨
      ¬ Located s subj.tenantID type id ∧
        observe e s (resolve subj type id) = .error .resourceNotFound := by
  unfold resolve
  rw [observe_bind (quiet_locate _ _ _), observe_locate hfault]
  by_cases hloc : Located s subj.tenantID type id
  · obtain ⟨gs, hgs, hmem⟩ := observe_grantsOnResource hfault subj.tenantID type id
    refine .inl ⟨hloc, decide subj gs e.clock, ?_, fun a => granted_iff hmem hloc⟩
    rw [if_pos hloc]
    rw [observe_bind (quiet_fetch (readOnly_grantsOnResource _ _ _)), hgs]
    rfl
  · exact .inr ⟨hloc, by rw [if_neg hloc]; rfl⟩

theorem observe_check (hfault : e.fault = .ok) (subj : Subjects) (type : ResourceType) (id : Id)
    (a : Action) :
    observe e s (check subj type id a) =
      if Permitted s subj type id a e.clock then .ok ()
      else if Located s subj.tenantID type id then .error .forbidden
      else .error .resourceNotFound := by
  unfold check
  rw [observe_bind (quiet_resolve _ _ _)]
  rcases observe_resolve hfault subj type id with ⟨hloc, p, hp, hperm⟩ | ⟨hloc, herr⟩
  · rw [hp, if_pos hloc]
    show observe e s (if has p a = true then pure () else fail .forbidden) = _
    by_cases ha : has p a = true
    · rw [if_pos ha, if_pos ((hperm a).1 ha)]
      rfl
    · rw [if_neg ha, if_neg fun hper => ha ((hperm a).2 hper)]
      rfl
  · rw [herr, if_neg hloc, if_neg fun hper => hloc hper.1]
    rfl

theorem check_ok_iff (hfault : e.fault = .ok) :
    observe e s (check subj type id a) = .ok () ↔ Permitted s subj type id a e.clock := by
  rw [observe_check hfault]
  constructor
  · intro h
    by_contra hper
    rw [if_neg hper] at h
    split at h <;> cases h
  · exact fun hper => if_pos hper

/-- The permissions of the subjects on a resource, from the tables. -/
def permissionsAt (s : Database) (subj : Subjects) (type : ResourceType) (id : Id) (now : Time) :
    Permissions where
  read := Decidable.decide (Permitted s subj type id .read now)
  write := Decidable.decide (Permitted s subj type id .write now)
  delete := Decidable.decide (Permitted s subj type id .delete now)
  share := Decidable.decide (Permitted s subj type id .share now)
  use := Decidable.decide (Permitted s subj type id .use now)

theorem permissions_ext {p q : Permissions} (h : ∀ a, has p a = has q a) : p = q := by
  obtain ⟨r, w, d, sh, u⟩ := p
  obtain ⟨r', w', d', sh', u'⟩ := q
  obtain rfl : r = r' := h .read
  obtain rfl : w = w' := h .write
  obtain rfl : d = d' := h .delete
  obtain rfl : sh = sh' := h .share
  obtain rfl : u = u' := h .use
  rfl

theorem observe_effective (hfault : e.fault = .ok) (hloc : Located s subj.tenantID type id) :
    observe e s (effective subj type id) = .ok (permissionsAt s subj type id e.clock) := by
  rcases observe_resolve hfault subj type id with ⟨-, p, hp, hperm⟩ | ⟨hnot, -⟩
  · refine hp.trans (congrArg Except.ok (permissions_ext fun a => ?_))
    rw [Bool.eq_iff_iff, hperm a]
    cases a <;> simp [permissionsAt, has]
  · exact absurd hloc hnot

/-- A grant is found for the subjects without a look at whether they have a user id. -/
def Names (g : Grant) (subj : Subjects) : Prop :=
  match g.subjectType with
  | .user => g.subjectID = subj.userID
  | .role => g.subjectID ∈ subj.roles
  | .tenant => True

/-- The grant has not expired. -/
def Unexpired (g : Grant) (now : Time) : Prop := ∀ t, g.expiresAt = some t → now < t

theorem read_of (r : Relation) : (of r).read = true := by cases r <;> rfl

theorem observe_listAccessibleIDs (hfault : e.fault = .ok) (hadmin : subj.isAdmin = false)
    (type : ResourceType) :
    ∃ ids, observe e s (listAccessibleIDs subj type) = .ok (ids, false) ∧
      ∀ id, id ∈ ids ↔ ∃ g ∈ s.grants.rows, On subj.tenantID type id g ∧ Names g subj ∧
        Unexpired g e.clock := by
  unfold listAccessibleIDs
  rw [hadmin]
  simp only [Bool.false_eq_true, if_false]
  rw [observe_bind quiet_now, observe_now]
  show ∃ ids, observe e s _ = _ ∧ _
  rw [observe_bind (quiet_fetch (readOnly_grantsForSubjects _ _ _ _)), observe_fetch,
    transact_eq_atomic hfault, grantsForSubjects, Tx.atomic_ask_bind, Tx.atomic_query]
  refine ⟨_, rfl, fun id => ?_⟩
  simp only [List.mem_map, List.mem_filter, mem_orderBy, Bool.and_eq_true, beq_iff_eq, read_of,
    and_true]
  constructor
  · rintro ⟨g, ⟨⟨hg, ⟨ht, hnames⟩, hexp⟩, hty⟩, hid⟩
    refine ⟨g, hg, ⟨ht, hty, hid⟩, ?_, by simpa [Unexpired, Option.all_eq_true] using hexp⟩
    unfold Names
    split at hnames <;> simp_all
  rintro ⟨g, hg, ⟨ht, hty, hid⟩, hnames, hexp⟩
  refine ⟨g, ⟨⟨hg, ⟨ht, ?_⟩, by simpa [Unexpired, Option.all_eq_true] using hexp⟩, hty⟩, hid⟩
  unfold Names at hnames
  split at hnames <;> simp_all

/-- The id is among those listed for the subjects, or all are. -/
def Lists (e : Env) (s : Database) (subj : Subjects) (type : ResourceType) (id : Id) : Prop :=
  ∃ ids all, observe e s (listAccessibleIDs subj type) = .ok (ids, all) ∧ (all = true ∨ id ∈ ids)

theorem observe_listAccessibleIDs_admin (hadmin : subj.isAdmin = true) (type : ResourceType) :
    observe e s (listAccessibleIDs subj type) = .ok ([], true) := by
  unfold listAccessibleIDs
  rw [if_pos hadmin]
  rfl

theorem lists_of_admin (hadmin : subj.isAdmin = true) : Lists e s subj type id :=
  ⟨[], true, observe_listAccessibleIDs_admin hadmin type, .inl rfl⟩

theorem lists_iff (hfault : e.fault = .ok) (hadmin : subj.isAdmin = false) :
    Lists e s subj type id ↔ ∃ g ∈ s.grants.rows, On subj.tenantID type id g ∧ Names g subj ∧
      Unexpired g e.clock := by
  obtain ⟨ids, hids, hmem⟩ := observe_listAccessibleIDs hfault hadmin type
  rw [← hmem]
  constructor
  · rintro ⟨ids', all, hids', hall⟩
    cases hids.symm.trans hids'
    exact hall.resolve_left (by simp)
  · exact fun hid => ⟨ids, false, hids, .inr hid⟩

end Moment

end Lcm.Authz
