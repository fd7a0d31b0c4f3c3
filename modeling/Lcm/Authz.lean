import Lcm.Service.Rules

/-!
# Access decisions

Grants of owner, editor, viewer or sharer on a certificate or issuer, to a user, a role or
the whole tenant, optionally expiring. Tenant administrators hold owner on everything of
their tenant. A check only reads.
-/

namespace Lcm

open Db Svc

namespace Authz

inductive Action where
  | read
  | write
  | delete
  | share
  | use
deriving DecidableEq

/-- `AdminRoles`: these roles hold owner implicitly. -/
def adminRoles : List String := ["owner", "admin"]

/-- `ServiceSubjects`: a module acting for a tenant. -/
def serviceSubjects (tenantID : Id) (spiffeID : String) : Subjects :=
  ⟨tenantID, "", [], spiffeID⟩

end Authz

namespace Subjects

/-- The kind of the caller, for audit. -/
def actorKind (s : Subjects) : String := if s.service ≠ "" then "service" else "user"

def actorID (s : Subjects) : String := if s.service ≠ "" then s.service else s.userID

def isAdmin (s : Subjects) : Bool := s.roles.any fun r => Authz.adminRoles.any fun a => r == a

end Subjects

namespace Authz

/-- One permission. -/
def has (p : Permissions) : Action → Bool
  | .read => p.read
  | .write => p.write
  | .delete => p.delete
  | .share => p.share
  | .use => p.use

/-- `Of`: the permissions a relation carries. -/
def of : Relation → Permissions
  | .owner => ⟨true, true, true, true, true⟩
  | .editor => ⟨true, true, false, false, true⟩
  | .viewer => ⟨true, false, false, false, false⟩
  | .sharer => ⟨true, false, false, true, true⟩

/-- The permissions of a subject without grants. -/
def noPermissions : Permissions := ⟨false, false, false, false, false⟩

def union (a b : Permissions) : Permissions :=
  ⟨a.read || b.read, a.write || b.write, a.delete || b.delete, a.share || b.share, a.use || b.use⟩

/-- The grant applies to the subjects at `now`. -/
def «matches» (g : Grant) (s : Subjects) (now : Time) : Bool :=
  (g.expiresAt.all fun t => decide (now < t)) &&
    match g.subjectType with
    | .user => s.userID != "" && g.subjectID == s.userID
    | .role => s.roles.any fun r => r == g.subjectID
    | .tenant => true

/-- The effective permissions of the subjects from the grants on a resource. -/
def decide (s : Subjects) (grants : List Grant) (now : Time) : Permissions :=
  (grants.filter fun g => «matches» g s now).foldl (fun p g => union p (of g.relation))
    (if s.isAdmin then of .owner else noPermissions)

/-- `notFound`: a resource outside the tenant does not exist for the caller. -/
def notFound : Err → Err
  | .notFound => .resourceNotFound
  | e => e

def locate (tenantID : Id) (resourceType : ResourceType) (resourceID : Id) : Svc Unit := do
  let r ← attempt (match resourceType with
    | .certificate => do
      let _ ← fetch (Sql.getCertificate tenantID resourceID)
      pure ()
    | .issuer => do
      let _ ← fetch (Sql.getIssuer tenantID resourceID)
      pure ())
  match r with
  | .ok () => pure ()
  | .error e => fail (notFound e)

def resolve (s : Subjects) (resourceType : ResourceType) (resourceID : Id) : Svc Permissions := do
  locate s.tenantID resourceType resourceID
  let grants ← fetch (Sql.grantsOnResource s.tenantID resourceType resourceID)
  let now ← Svc.now
  pure (decide s grants now)

/-- `Check`: returns when allowed; `ErrForbidden` when not. -/
def check (s : Subjects) (resourceType : ResourceType) (resourceID : Id) (action : Action) :
    Svc Unit := do
  let perms ← resolve s resourceType resourceID
  if has perms action then pure () else fail .forbidden

/-- `Effective`, of which the services use the permissions only. -/
def effective (s : Subjects) (resourceType : ResourceType) (resourceID : Id) : Svc Permissions :=
  resolve s resourceType resourceID

/-- `ListAccessibleIDs`: the ids of resources of the type that the subjects may read, and whether
they may read all. -/
def listAccessibleIDs (s : Subjects) (resourceType : ResourceType) : Svc (List Id × Bool) :=
  if s.isAdmin then pure ([], true)
  else do
    let now ← Svc.now
    let grants ← fetch (Sql.grantsForSubjects s.tenantID s.userID s.roles now)
    pure ((grants.filter fun g => g.resourceType == resourceType && (of g.relation).read).map
      Grant.resourceID, false)

/-- `GrantOwner`, inside a transaction: the creator-owner grant of a new resource. Service
creators leave no grant. -/
def grantOwner (tenantID : Id) (resourceType : ResourceType) (resourceID : Id)
    (userID : String) : Sql Unit := do
  if userID = "" then pure ()
  else
    let id ← Sql.newID
    let _ ← Sql.upsertGrant
      { id, tenantID, resourceType, resourceID, subjectType := .user, subjectID := userID,
        relation := .owner, grantedBy := some userID, grantedAt := 0, expiresAt := none }
    pure ()

/-- `DropResource`, inside a transaction. -/
def dropResource (tenantID : Id) (resourceType : ResourceType) (resourceID : Id) : Sql Unit :=
  Sql.deleteGrantsOfResource tenantID resourceType resourceID

/-! ## Checks only read -/

theorem quiet_locate (t : Id) (ty : ResourceType) (id : Id) : Quiet (locate t ty id) := by
  refine only_bind (only_attempt ?_) fun r => ?_
  · cases ty with
    | certificate =>
      exact only_bind (quiet_fetch (Sql.readOnly_getCertificate t id)) fun _ => only_pure _
    | issuer => exact only_bind (quiet_fetch (Sql.readOnly_getIssuer t id)) fun _ => only_pure _
  cases r with
  | ok u => exact only_pure ()
  | error e => exact only_fail _

theorem quiet_resolve (s : Subjects) (ty : ResourceType) (id : Id) : Quiet (resolve s ty id) := by
  refine only_bind (quiet_locate _ _ _) fun _ => ?_
  refine only_bind (quiet_fetch (Sql.readOnly_grantsOnResource _ _ _)) fun grants => ?_
  exact only_bind quiet_now fun now => only_pure _

theorem quiet_check (s : Subjects) (ty : ResourceType) (id : Id) (a : Action) :
    Quiet (check s ty id a) := by
  refine only_bind (quiet_resolve s ty id) fun perms => ?_
  exact only_ite (only_pure ()) (only_fail _)

theorem quiet_effective (s : Subjects) (ty : ResourceType) (id : Id) :
    Quiet (effective s ty id) := quiet_resolve s ty id

theorem quiet_listAccessibleIDs (s : Subjects) (ty : ResourceType) :
    Quiet (listAccessibleIDs s ty) := by
  refine only_ite (only_pure _) ?_
  refine only_bind quiet_now fun now => ?_
  exact only_bind (quiet_fetch (Sql.readOnly_grantsForSubjects _ _ _ _)) fun _ => only_pure _

end Authz

end Lcm
