import Lcm.Safety.Sharing

/-!
# Listing and checking

`ListAccessibleIDs` finds the ids a caller may read by a query for the grants that name the
caller; `Check` goes over the grants on one resource. They differ in one case: the query
compares the user id of a grant with that of the caller also when the caller, a service, has
none, and an import may have stored a grant to the user with the empty id.

* `listing_agrees_iff`: at any moment the two agree on a resource just when it is not that case.
* `listing_shows_more`: an import brings it about.
-/

namespace Lcm.Authz

open Conc Db Svc

/-- `Check` lets the subjects read the resource. -/
def Reads (e : Env) (s : Database) (subj : Subjects) (type : ResourceType) (id : Id) : Prop :=
  observe e s (check subj type id .read) = .ok ()

/-- An unexpired grant on the resource names the user with the empty id. -/
def ToNobody (s : Database) (t : Id) (type : ResourceType) (id : Id) (now : Time) : Prop :=
  ∃ g ∈ s.grants.rows, On t type id g ∧ g.subjectType = .user ∧ g.subjectID = "" ∧ Unexpired g now

/-- An unexpired grant on the resource names a role of the subjects, or the tenant. -/
def ByRoleOrTenant (s : Database) (subj : Subjects) (type : ResourceType) (id : Id) (now : Time) :
    Prop :=
  ∃ g ∈ s.grants.rows, On subj.tenantID type id g ∧ Unexpired g now ∧
    (g.subjectType = .role ∧ g.subjectID ∈ subj.roles ∨ g.subjectType = .tenant)

section Agreement

variable {e : Env} {s : Database} {subj : Subjects} {type : ResourceType} {id : Id}

theorem reads_iff (hfault : e.fault = .ok) :
    Reads e s subj type id ↔ Permitted s subj type id .read e.clock := check_ok_iff hfault

theorem matches_iff_names {g : Grant} {now : Time} :
    «matches» g subj now = true ↔ Unexpired g now ∧ Names g subj ∧
      ¬(g.subjectType = .user ∧ subj.userID = "") := by
  rw [matches_iff]
  refine and_congr_right fun _ => ?_
  unfold reaches Names
  cases g.subjectType with
  | user => simp [and_comm]
  | role =>
    simp only [List.any_eq_true, beq_iff_eq, reduceCtorEq, false_and, not_false_eq_true, and_true]
    exact ⟨fun ⟨r, hr, heq⟩ => heq ▸ hr, fun hr => ⟨_, hr, rfl⟩⟩
  | tenant => simp

theorem lists_of_permitted (hfault : e.fault = .ok)
    (h : Permitted s subj type id .read e.clock) : Lists e s subj type id := by
  cases hadmin : subj.isAdmin with
  | true => exact lists_of_admin hadmin
  | false =>
    rw [lists_iff hfault hadmin]
    obtain ⟨g, hg, hon, hmatches, -⟩ := h.2.resolve_left (by simp [hadmin])
    obtain ⟨hexp, hnames, -⟩ := matches_iff_names.1 hmatches
    exact ⟨g, hg, hon, hnames, hexp⟩

theorem lists_iff_permitted_iff (hfault : e.fault = .ok)
    (hloc : Located s subj.tenantID type id) :
    (Lists e s subj type id ↔ Permitted s subj type id .read e.clock) ↔
      ¬(subj.isAdmin = false ∧ subj.userID = "" ∧ ToNobody s subj.tenantID type id e.clock ∧
        ¬ ByRoleOrTenant s subj type id e.clock) := by
  cases hadmin : subj.isAdmin with
  | true =>
    have hlists : Lists e s subj type id := lists_of_admin hadmin
    have hper : Permitted s subj type id .read e.clock := ⟨hloc, .inl hadmin⟩
    simp [hlists, hper]
  | false =>
    rw [lists_iff hfault hadmin]
    have hper : Permitted s subj type id .read e.clock ↔ ∃ g ∈ s.grants.rows,
        On subj.tenantID type id g ∧ Unexpired g e.clock ∧ Names g subj ∧
          ¬(g.subjectType = .user ∧ subj.userID = "") := by
      unfold Permitted Granted
      simp [hloc, hadmin, matches_iff_names, has, read_of]
    rw [hper]
    constructor
    · rintro hiff ⟨-, huser, ⟨g, hg, hon, hty, hid, hexp⟩, hnone⟩
      -- the grant to the empty user id is listed, so some grant must permit
      have hnames : Names g subj := by
        unfold Names
        rw [hty]
        exact hid.trans huser.symm
      obtain ⟨g', hg', hon', hexp', hnames', hne⟩ := hiff.1 ⟨g, hg, hon, hnames, hexp⟩
      refine hnone ⟨g', hg', hon', hexp', ?_⟩
      unfold Names at hnames'
      cases hty' : g'.subjectType with
      | user => exact absurd ⟨hty', huser⟩ hne
      | role => exact .inl ⟨rfl, by simpa [hty'] using hnames'⟩
      | tenant => exact .inr rfl
    · intro hcond
      constructor
      · rintro ⟨g, hg, hon, hnames, hexp⟩
        by_cases hblank : g.subjectType = .user ∧ subj.userID = ""
        · -- then a role or the tenant is named as well
          have hnobody : ToNobody s subj.tenantID type id e.clock := by
            refine ⟨g, hg, hon, hblank.1, ?_, hexp⟩
            unfold Names at hnames
            rw [hblank.1] at hnames
            exact hnames.trans hblank.2
          obtain ⟨g', hg', hon', hexp', hto⟩ : ByRoleOrTenant s subj type id e.clock := by
            by_contra hnone
            exact hcond ⟨rfl, hblank.2, hnobody, hnone⟩
          refine ⟨g', hg', hon', hexp', ?_, ?_⟩
          · unfold Names
            rcases hto with ⟨hty, hrole⟩ | hty <;> simp [hty]
            exact hrole
          · rcases hto with ⟨hty, -⟩ | hty <;> simp [hty]
        · exact ⟨g, hg, hon, hexp, hnames, hblank⟩
      · rintro ⟨g, hg, hon, hexp, hnames, -⟩
        exact ⟨g, hg, hon, hnames, hexp⟩

/-- At a moment, listing and checking agree on an existing resource just when not: the caller is no
administrator and has no user id, an unexpired grant on the resource names the empty user id, and
none names a role of the caller or the tenant. -/
theorem listing_agrees_iff (e : Env) (hfault : e.fault = .ok) (s : Database) (subj : Subjects)
    (type : ResourceType) (id : Id) (hloc : Located s subj.tenantID type id) :
    (Lists e s subj type id ↔ Reads e s subj type id) ↔
      ¬(subj.isAdmin = false ∧ subj.userID = "" ∧ ToNobody s subj.tenantID type id e.clock ∧
        ¬ ByRoleOrTenant s subj type id e.clock) := by
  rw [reads_iff hfault]
  exact lists_iff_permitted_iff hfault hloc

end Agreement

/-! ## An import of a grant to the empty user id -/

/-- A call of the authorizer or of the services. -/
inductive AccessTurn where
  | share (x : ShareTurn)
  | serve (x : Turn)

/-- The call creates, deletes or imports resources. -/
def AccessTurn.Manages : AccessTurn → Prop
  | .share _ => True
  | .serve x =>
    match x.call with
    | .createIssuer .. | .issue .. | .importACME .. | .deleteIssuer .. | .deleteCertificate ..
    | .importBackup .. => True
    | _ => False

/-- What the call makes of the database. -/
def access (P : Platform) (s : Database) : AccessTurn → Database
  | .share x => Authz.share s x
  | .serve x => Lcm.serve P s x

section Sample

open Lcm.Sample

/-- A document with an issuer and a viewer of it. -/
def viewerDoc (subjectType : SubjectType) (subjectID : String) : Transfer.Document :=
  ⟨1, 0, 1, false, [⟨"main", .selfSigned, "td", true, .empty, .empty⟩], [],
    [⟨.issuer, "main", subjectType, subjectID, .viewer, none⟩], []⟩

def importViewer (subjectType : SubjectType) (subjectID : String) : AccessTurn :=
  .serve ⟨.importBackup admin (viewerDoc subjectType subjectID) "skip", fun _ => env 10⟩

/-- The database after the import. -/
def imported (subjectType : SubjectType) (subjectID : String) : Database :=
  Machine.run (access platform) .empty [importViewer subjectType subjectID]

/-- A module that acts for the tenant. -/
def moduleCaller : Subjects := serviceSubjects 1 "spiffe://td/module"

/-- A tenant-wide viewer: the module finds the issuer by both ways. -/
theorem listing_agrees_tenant_wide :
    Lists (env 20) (imported .tenant "") moduleCaller .issuer 10 ∧
      Reads (env 20) (imported .tenant "") moduleCaller .issuer 10 := by
  have hreads : Reads (env 20) (imported .tenant "") moduleCaller .issuer 10 :=
    (reads_iff rfl).2 (by decide +kernel)
  have hagree := listing_agrees_iff (env 20) rfl (imported .tenant "") moduleCaller .issuer 10
    (by decide +kernel)
  refine ⟨(hagree.2 ?_).2 hreads, hreads⟩
  rintro ⟨-, -, ⟨g, hg, -, hty, -, -⟩, -⟩
  have hall : ∀ g ∈ (imported .tenant "").grants.rows, g.subjectType ≠ .user := by decide +kernel
  exact hall g hg hty

/-- After the import of a grant to the user with the empty id, a module has the issuer listed and
may not read it. -/
theorem listing_shows_more :
    ¬ ∀ (P : Platform) (xs : List AccessTurn), (∀ x ∈ xs, x.Manages) →
      ∀ (e : Env), e.fault = .ok → ∀ (subj : Subjects) (type : ResourceType) (id : Id),
        let s := Machine.run (access P) .empty xs
        Located s subj.tenantID type id → (Lists e s subj type id ↔ Reads e s subj type id) := by
  intro h
  have hagree := h platform [importViewer .user ""]
    (by intro x hx; obtain rfl := List.mem_singleton.1 hx; trivial)
    (env 20) rfl moduleCaller .issuer 10 (by decide +kernel)
  have hlists : Lists (env 20) (imported .user "") moduleCaller .issuer 10 := by
    have hrow : (⟨12, 1, .issuer, 10, .user, "", .viewer, some "ann", 100, none⟩ : Grant) ∈
        (imported .user "").grants.rows := by decide +kernel
    exact (lists_iff rfl rfl).2 ⟨_, hrow, ⟨rfl, rfl, rfl⟩, rfl, nofun⟩
  have hrefused : ¬ Permitted (imported .user "") moduleCaller .issuer 10 .read
      (env 20).clock := by
    decide +kernel
  exact hrefused ((reads_iff rfl).1 (hagree.1 hlists))

end Sample

end Lcm.Authz
