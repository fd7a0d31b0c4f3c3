import Lcm.Conc.Machine
import Lcm.Sharing
import Lcm.System

/-!
# What sharing can and cannot do

Callers make `Grant` and `Revoke` calls one after the other.

* `share_row`: a grant in the table after a call was there before, or the call has handed it
  out and its caller held all it carries.
* `permitted_traced`: every permission was there before, or has been handed out by a holder.
* `sharing_safe`: a permission that no user or role holds is not gained by sharing.
* `expiring_ends`: access that expires ends, as long as its holder hands out nothing to itself
  that lasts longer. `expiring_extended`: it may.
-/

namespace Lcm.Authz

open Conc Db Svc Machine

/-! ## Sequences of calls -/

/-- The calls that change grants. -/
inductive ShareCall where
  | grant (subj : Subjects) (input : GrantInput)
  | revoke (subj : Subjects) (grantID : Id)

def ShareCall.caller : ShareCall → Subjects
  | grant subj _ => subj
  | revoke subj _ => subj

/-- A call, and the choices of the world at its steps. -/
structure ShareTurn where
  call : ShareCall
  env : Nat → Env

/-- What the call makes of the database. -/
def share (s : Database) (x : ShareTurn) : Database :=
  match x.call with
  | .grant subj input => ((grant subj input).run.exec x.env 0 s []).1
  | .revoke subj grantID => ((revoke subj grantID).run.exec x.env 0 s []).1

theorem share_cases (s : Database) (x : ShareTurn) :
    (∃ subj input, x.call = .grant subj input ∧
      (∃ g, outcome (grant subj input) x.env s = .ok (.ok g)) ∧
      Handed subj input (x.env 3).clock s (share s x)) ∨
    ∃ grants, share s x = { s with grants } ∧ ∀ g ∈ grants.rows, g ∈ s.grants.rows := by
  obtain ⟨call, env⟩ := x
  cases call with
  | grant subj input =>
    obtain ⟨k, ⟨hs, -⟩ | ⟨hhanded, g, hout, -⟩⟩ :=
      (ends_grant (e := env) (n := 0) (s := s) subj input).exec []
    · exact .inr ⟨s.grants, hs, fun _ hg => hg⟩
    · exact .inl ⟨subj, input, rfl, ⟨g, hout⟩, hhanded⟩
  | revoke subj grantID =>
    obtain ⟨k, h⟩ :=
      (ends_revoke (e := env) (n := 0) (s := s) subj grantID).exec []
    exact .inr h

section Step

variable {s : Database} {x : ShareTurn}

theorem share_row {g : Grant} (hg : g ∈ (share s x).grants.rows) :
    g ∈ s.grants.rows ∨ ∃ subj input, x.call = .grant subj input ∧
      (∃ g, outcome (grant subj input) x.env s = .ok (.ok g)) ∧
      Handed subj input (x.env 3).clock s (share s x) ∧ Says subj.tenantID input g := by
  rcases share_cases s x with ⟨subj, input, hcall, hout, hhanded⟩ | ⟨grants, heq, hrows⟩
  · obtain ⟨grants, heq, hrows⟩ := hhanded.table
    rw [heq] at hg
    exact (hrows g hg).imp_right fun hsays => ⟨subj, input, hcall, hout, hhanded, hsays⟩
  · rw [heq] at hg
    exact .inl (hrows g hg)

theorem located_share {t : Id} {type : ResourceType} {id : Id} :
    Located (share s x) t type id ↔ Located s t type id := by
  have hsame : ∃ grants, share s x = { s with grants } := by
    rcases share_cases s x with ⟨subj, input, -, -, hhanded⟩ | ⟨grants, heq, -⟩
    · obtain ⟨grants, heq, -⟩ := hhanded.table
      exact ⟨grants, heq⟩
    · exact ⟨grants, heq⟩
  obtain ⟨grants, heq⟩ := hsame
  rw [heq]
  cases type <;> rfl

end Step

/-! ## Grants and time -/

variable {s : Database} {x : ShareTurn}

/-- What is permitted to a caller who is no administrator was permitted before: grants end, but
do not begin, with time. -/
theorem Permitted.earlier {subj : Subjects} {type : ResourceType} {id : Id} {a : Action}
    {now later : Time} (h : Permitted s subj type id a later) (hle : now ≤ later) :
    Permitted s subj type id a now := by
  obtain ⟨hloc, hadmin | ⟨g, hg, hon, hmatch, hhas⟩⟩ := h
  · exact ⟨hloc, .inl hadmin⟩
  obtain ⟨hexp, hreach⟩ := matches_iff.1 hmatch
  refine ⟨hloc, .inr ⟨g, hg, hon, matches_iff.2 ⟨?_, hreach⟩, hhas⟩⟩
  exact fun t ht => Int.lt_of_le_of_lt hle (hexp t ht)

/-! ## A sample

In tenant 1 of the sample deployment, bob is a sharer of issuer 3 until 500. -/

section Sample

open Lcm.Sample

def bob : Subjects := ⟨1, "bob", [], ""⟩

def bobGrant : Grant := ⟨20, 1, .issuer, 3, .user, "bob", .sharer, some "ann", 0, some 500⟩

def shared : Database := { database with grants := ⟨[bobGrant], by decide⟩ }

def bobGrants (type : SubjectType) (id : String) (expiresAt : Option Time) : ShareTurn :=
  ⟨.grant bob ⟨.issuer, 3, type, id, .sharer, expiresAt⟩, fun n => env (30 + n)⟩

end Sample

/-! ## Where permissions come from -/

section Provenance

variable {subj : Subjects} {type : ResourceType} {id : Id} {a : Action} {now : Time}

/-- The call succeeds and hands the permission out for that time, and its caller holds it and
`share`. -/
def Passes (subj : Subjects) (type : ResourceType) (id : Id) (a : Action) (now : Time)
    (s : Database) (x : ShareTurn) : Prop :=
  ∃ granter input, x.call = .grant granter input ∧
    (∃ g, outcome (grant granter input) x.env s = .ok (.ok g)) ∧
    granter.tenantID = subj.tenantID ∧ input.resourceType = type ∧ input.resourceID = id ∧
    reaches input.subjectType input.subjectID subj = true ∧ has (of input.relation) a = true ∧
    (∀ t, input.expiresAt = some t → now < t) ∧
    ∀ b ∈ [.share, a], Permitted s granter type id b (x.env 3).clock

theorem permitted_step (h : Permitted (share s x) subj type id a now) :
    Permitted s subj type id a now ∨ Passes subj type id a now s x := by
  rcases h with ⟨hloc, hadmin | ⟨g, hg, hon, hmatch, hhas⟩⟩
  · exact .inl ⟨located_share.1 hloc, .inl hadmin⟩
  rcases share_row hg with hold | ⟨granter, input, hcall, hout, hhanded, hsays⟩
  · exact .inl ⟨located_share.1 hloc, .inr ⟨g, hold, hon, hmatch, hhas⟩⟩
  -- the grant is the one the call asks for
  rcases hsays with ⟨⟨ht, htype, hid⟩, hst, hsub, hrel, hexp⟩
  rcases hon with ⟨ht', rfl, rfl⟩
  obtain ⟨hlast, hreach⟩ := matches_iff.1 hmatch
  rw [hst, hsub] at hreach
  rw [hrel] at hhas
  refine .inr ⟨granter, input, hcall, hout, ht.symm.trans ht', htype.symm, hid.symm, hreach, hhas,
    fun t h => hlast t (hexp.trans h), ?_⟩
  rw [htype, hid, List.forall_mem_cons, List.forall_mem_singleton]
  exact ⟨hhanded.share, hhanded.held a hhas⟩

/-- Every permission was there at the start, or one of the calls has handed it out, by a caller who
held it then. -/
theorem permitted_traced {xs : List ShareTurn}
    (h : Permitted (run share s xs) subj type id a now) :
    Permitted s subj type id a now ∨
      ∃ ys x zs, xs = ys ++ x :: zs ∧ Passes subj type id a now (run share s ys) x := by
  induction xs generalizing s with
  | nil => exact .inl h
  | cons x xs ih =>
    rcases ih h with hstep | ⟨ys, y, zs, rfl, hpasses⟩
    · exact (permitted_step hstep).imp_right fun hpasses => ⟨[], x, xs, rfl, hpasses⟩
    · exact .inr ⟨x :: ys, y, zs, rfl, hpasses⟩

end Provenance

/-- Carol may read at the end, and has it from bob. -/
theorem permitted_traced_carol :
    ∃ ys x zs, [bobGrants .tenant "" none] = ys ++ x :: zs ∧
      Passes ⟨1, "carol", [], ""⟩ .issuer 3 .read 600 (run share shared ys) x := by
  have h : Permitted (run share shared [bobGrants .tenant "" none]) ⟨1, "carol", [], ""⟩ .issuer 3
      .read 600 := by
    decide +kernel
  exact (permitted_traced h).resolve_left (by decide)

/-! ## No escalation -/

/-- No user and no role of the tenant, administrators apart, holds the permission. -/
def NobodyHolds (s : Database) (t : Id) (type : ResourceType) (id : Id) (a : Action)
    (now : Time) : Prop :=
  ∀ subj : Subjects, subj.tenantID = t → subj.isAdmin = false → ¬Permitted s subj type id a now

section Escalation

variable {t : Id} {type : ResourceType} {id : Id} {a : Action} {start : Time}

theorem nobodyHolds_step (hcaller : x.call.caller.isAdmin = false) (htime : start ≤ (x.env 3).clock)
    (h : NobodyHolds s t type id a start) : NobodyHolds (share s x) t type id a start := by
  rintro subj ht hadmin ⟨hloc, hadmin' | ⟨g, hg, hon, hmatch, hhas⟩⟩
  · rw [hadmin] at hadmin'
    cases hadmin'
  rcases share_row hg with hold | ⟨granter, input, hcall, -, hhanded, hsays⟩
  · exact h subj ht hadmin ⟨located_share.1 hloc, .inr ⟨g, hold, hon, hmatch, hhas⟩⟩
  obtain ⟨⟨htenant, htype, hid⟩, -, -, hrel, -⟩ := hsays
  rw [hrel] at hhas
  have hheld := (hhanded.held a hhas).earlier htime
  rw [← htype, hon.2.1, ← hid, hon.2.2] at hheld
  rw [hcall] at hcaller
  exact h granter (htenant.symm.trans (hon.1.trans ht)) hcaller hheld

/-- What no user or role holds at the start, none holds after any sequence of calls by callers
who are no administrators, made from then on; and whoever is no administrator holds all that a
grant it hands out carries. -/
theorem sharing_safe :
    (∀ (t : Id) (type : ResourceType) (id : Id) (a : Action) (start : Time) (s : Database)
      (xs : List ShareTurn), (∀ x ∈ xs, x.call.caller.isAdmin = false) →
      (∀ x ∈ xs, ∀ n, start ≤ (x.env n).clock) → NobodyHolds s t type id a start →
      ∀ now, start ≤ now → NobodyHolds (run share s xs) t type id a now) ∧
    ∀ (s : Database) (subj : Subjects) (input : GrantInput) (env : Nat → Env) (g : Grant),
      subj.isAdmin = false → outcome (grant subj input) env s = .ok (.ok g) →
      ∀ a, has (of g.relation) a = true →
        Permitted s subj g.resourceType g.resourceID a (env 3).clock := by
  refine ⟨?_, ?_⟩
  · intro t type id a start s xs hcallers htimes hnone now hle
    have hrun : NobodyHolds (run share s xs) t type id a start := by
      have hmeets : Meets share
          (fun _ x => x.call.caller.isAdmin = false ∧ start ≤ (x.env 3).clock) s xs :=
        meets_of_forall (fun x hx _ => ⟨hcallers x hx, htimes x hx 3⟩) s
      refine run_inv (I := fun s => NobodyHolds s t type id a start) ?_ hnone hmeets
      exact fun s x ⟨hcaller, htime⟩ h => nobodyHolds_step hcaller htime h
    exact fun subj ht hadmin hper => hrun subj ht hadmin (hper.earlier hle)
  intro s subj input env g _ hout a ha
  obtain ⟨k, ⟨-, hno⟩ | ⟨hhanded, g', hout', hsays⟩⟩ :=
    (ends_grant (e := env) (n := 0) (s := s) subj input).exec []
  · exact absurd hout (hno g)
  obtain rfl : g' = g := Except.ok.inj (Except.ok.inj (hout'.symm.trans hout))
  obtain ⟨⟨-, htype, hid⟩, -, -, hrel, -⟩ := hsays
  rw [htype, hid]
  rw [hrel] at ha
  exact hhanded.held a ha

end Escalation

theorem nobodyHolds_shared : NobodyHolds shared 1 .issuer 3 .write 100 := by
  rintro subj - hadmin ⟨-, h | ⟨g, hg, -, -, hhas⟩⟩
  · rw [hadmin] at h
    cases h
  · obtain rfl := List.mem_singleton.1 hg
    cases hhas

/-- Bob makes the whole tenant sharers of the issuer. Nobody may write to it afterwards, and bob
held all that it handed out. -/
theorem sharing_safe_bob :
    NobodyHolds (run share shared [bobGrants .tenant "" none]) 1 .issuer 3 .write 600 ∧
      Permitted shared bob .issuer 3 .share 100 := by
  refine ⟨?_, ?_⟩
  · refine sharing_safe.1 1 .issuer 3 .write 100 shared [bobGrants .tenant "" none] ?_ ?_
      nobodyHolds_shared 600 (by decide)
    · decide
    intro x hx n
    obtain rfl := List.mem_singleton.1 hx
    exact Int.le_refl 100
  have hout : outcome (grant bob ⟨.issuer, 3, .tenant, "", .sharer, none⟩)
      (fun n => Lcm.Sample.env (30 + n)) shared =
      .ok (.ok ⟨34, 1, .issuer, 3, .tenant, "", .sharer, some "bob", 100, none⟩) := by
    decide +kernel
  exact sharing_safe.2 shared bob _ _ _ (by decide) hout .share rfl

/-! ## Expiring access -/

/-- Every grant on the resource that reaches the subjects has an expiry, no later than `T`. -/
def ExpiresBy (s : Database) (subj : Subjects) (type : ResourceType) (id : Id) (T : Time) : Prop :=
  ∀ g ∈ s.grants.rows, On subj.tenantID type id g →
    reaches g.subjectType g.subjectID subj = true → ∃ t ≤ T, g.expiresAt = some t

/-- A `Grant` on the resource by a caller who holds `share` there does not reach the caller
itself for longer than until `T`. -/
def Bounded (subj : Subjects) (type : ResourceType) (id : Id) (T : Time) (s : Database)
    (x : ShareTurn) : Prop :=
  match x.call with
  | .revoke _ _ => True
  | .grant _ input => input.resourceType = type → input.resourceID = id →
      reaches input.subjectType input.subjectID subj = true →
      Permitted s subj type id .share (x.env 3).clock → ∃ t ≤ T, input.expiresAt = some t

section Expiry

variable {subj : Subjects} {type : ResourceType} {id : Id} {T : Time}

theorem expiresBy_step (hcaller : x.call.caller = subj) (hbound : Bounded subj type id T s x)
    (h : ExpiresBy s subj type id T) : ExpiresBy (share s x) subj type id T := by
  intro g hg hon hreach
  rcases share_row hg with hold | ⟨granter, input, hcall, -, hhanded, hsays⟩
  · exact h g hold hon hreach
  obtain ⟨⟨-, htype, hid⟩, hst, hsub, -, hexp⟩ := hsays
  rw [hcall] at hcaller
  obtain rfl : granter = subj := hcaller
  simp only [Bounded, hcall] at hbound
  have htype' : input.resourceType = type := htype.symm.trans hon.2.1
  have hid' : input.resourceID = id := hid.symm.trans hon.2.2
  have hshare := hhanded.share
  rw [htype', hid'] at hshare
  rw [hst, hsub] at hreach
  rw [hexp]
  exact hbound htype' hid' hreach hshare

theorem not_permitted_of_expiresBy (hadmin : subj.isAdmin = false) (h : ExpiresBy s subj type id T)
    {now : Time} (hnow : T ≤ now) (a : Action) : ¬Permitted s subj type id a now := by
  rintro ⟨-, hadmin' | ⟨g, hg, hon, hmatch, -⟩⟩
  · rw [hadmin] at hadmin'
    cases hadmin'
  obtain ⟨hlast, hreach⟩ := matches_iff.1 hmatch
  obtain ⟨t, ht, hexp⟩ := h g hg hon hreach
  have hlt := hlast t hexp
  exact absurd (Int.lt_of_lt_of_le hlt ht) (Int.not_lt.2 hnow)

/-- A subject whose access expires by `T` has none from then on, whatever it shares and revokes,
as long as nothing it hands out reaches the subject itself for longer. -/
theorem expiring_ends (hadmin : subj.isAdmin = false) {s : Database}
    (hexp : ExpiresBy s subj type id T) {xs : List ShareTurn}
    (hcaller : ∀ x ∈ xs, x.call.caller = subj)
    (hbound : Meets share (Bounded subj type id T) s xs) {now : Time} (hnow : T ≤ now)
    (a : Action) : ¬Permitted (run share s xs) subj type id a now := by
  have hcond := (meets_of_forall (fun x hx _ => hcaller x hx) s).and hbound
  have hrun : ExpiresBy (run share s xs) subj type id T :=
    run_inv (I := fun s => ExpiresBy s subj type id T)
      (fun s x ⟨hx, hb⟩ h => expiresBy_step hx hb h) hexp hcond
  exact not_permitted_of_expiresBy hadmin hrun hnow a

end Expiry

theorem expiresBy_shared : ExpiresBy shared bob .issuer 3 500 := by
  intro g hg _ _
  obtain rfl := List.mem_singleton.1 hg
  exact ⟨500, Int.le_refl 500, rfl⟩

/-- Bob shares with carol for as long as it likes, and with the tenant for as long as its own
access lasts. -/
theorem expiring_ends_bob : Permitted shared bob .issuer 3 .read 499 ∧
    ¬Permitted (run share shared
      [bobGrants .user "carol" none, bobGrants .tenant "" (some 400)]) bob .issuer 3 .read 500 := by
  refine ⟨by decide, expiring_ends (T := 500) (by decide) expiresBy_shared ?_ ?_
    (Int.le_refl 500) .read⟩
  · decide
  refine ⟨?_, ?_, trivial⟩
  · intro _ _ hreach
    cases hreach
  · intro _ _ _ _
    exact ⟨400, by decide, rfl⟩

/-- Bob extends its own access: a grant to itself without an expiry replaces the expiring one. -/
theorem expiring_extended :
    ¬∀ (s : Database) (subj : Subjects) (type : ResourceType) (id : Id) (T : Time)
      (xs : List ShareTurn), subj.isAdmin = false → ExpiresBy s subj type id T →
      (∀ x ∈ xs, x.call.caller = subj ∧ ∀ n, (x.env n).clock < T) →
      ∀ now, T < now → ∀ a, ¬Permitted (run share s xs) subj type id a now := by
  intro h
  refine h shared bob .issuer 3 500 [bobGrants .user "bob" none] (by decide) expiresBy_shared ?_
    501 (by decide) .read ?_
  · intro x hx
    obtain rfl := List.mem_singleton.1 hx
    exact ⟨rfl, fun _ => show (100 : Int) < 500 by decide⟩
  · decide +kernel

end Lcm.Authz
