import Lcm.Pages

/-!
# Tenant secrets

`secrets.go`: per-tenant credentials. A value goes in under seal and never comes out again: what
clients see is the name, the kind and the authors. Every field of a value is credential material,
so an update keeps each field that is left out or sent as the marker.
-/

namespace Lcm.Secrets

open Db Svc Ca

variable (P : Platform)

/-- A new or replaced secret. -/
structure Input where
  name : String
  kind : String
  value : Settings
deriving DecidableEq

/-- A secret as clients see it. -/
structure View where
  id : Id
  name : String
  kind : SecretKind
  createdBy : String
  updatedBy : String
deriving DecidableEq

/-- `validKind`. -/
def secretKind? (kind : String) : Option SecretKind :=
  if kind = "acme_account" then some .acmeAccount
  else if kind = "dns_credential" then some .dnsCredential
  else none

def view (r : TenantSecret) : View := ⟨r.id, r.name, r.kind, r.createdBy.getD "", r.updatedBy.getD ""⟩

def mapConflict (e : Err) : Err :=
  if e.isConflict then .taken "a secret with that name already exists" else e

def tooLarge : Err := .rejected "value" "value exceeds 8 KiB"

/-- `seal`. -/
def sealValue (id : Id) (value : Settings) : Svc Blob :=
  match Transfer.encodeSettings P value with
  | .error _ => fail tooLarge
  | .ok clear => askExcept fun e =>
    match P.envSeal e.nonce clear (adSecret id) with
    | .ok blob => .ok blob
    | .error .tooLarge => .error tooLarge
    | .error err => .error err

/-- `open`. -/
def openValue (row : TenantSecret) : Except Err Settings :=
  match P.envOpen row.valueSealed (adSecret row.id) with
  | none => .error .tampered
  | some clear => P.decodeSettings clear

def keysUnion (a b : Settings) : List String :=
  (a.fields.map Prod.fst ++ b.fields.map Prod.fst).eraseDups

def write (m : Sql Unit) : Svc Unit := do
  match ← attempt (repo (fun _ => .writeCredentials) m) with
  | .ok () => pure ()
  | .error e => fail (mapConflict e)

/-- `record`. -/
def event (subj : Subjects) (type : AuditType) (id : Id) : AuditEvent :=
  ⟨subj.tenantID, type, subj.actorKind, subj.actorID, some id, .ok, ""⟩

def get (subj : Subjects) (id : Id) : Svc View := do
  let row ← fetch (Sql.getSecret subj.tenantID id)
  pure (view row)

def list (subj : Subjects) : Svc (List View) := do
  let rows ← fetch (Sql.listSecrets P subj.tenantID)
  pure (rows.map view)

/-- The name has the length a secret, a webhook or a target may have. -/
def validName (name : String) : Bool := decide (1 ≤ name.utf8ByteSize ∧ name.utf8ByteSize ≤ 100)

/-- The rest of `Create`, after the name was found to be free. -/
def insert (subj : Subjects) (name : String) (kind : SecretKind) (value : Settings) : Svc View := do
  let id ← newID
  let blob ← sealValue P id value
  write (Sql.insertSecret P
    ⟨id, subj.tenantID, name, kind, blob, some subj.actorID, some subj.actorID⟩)
  emit (event subj .secretCreated id)
  get subj id

def create (subj : Subjects) (input : Input) : Svc View :=
  if !validName input.name then fail (.rejected "name" "name must be 1..100 chars")
  else match secretKind? input.kind with
    | none => fail (.rejected "kind" "kind must be acme_account or dns_credential")
    | some kind =>
      if input.value.fields.length = 0 then fail (.rejected "value" "value is required")
      else do
        match ← attempt (fetch (Sql.secretByName P subj.tenantID input.name)) with
        | .ok _ => fail (.taken "a secret with that name already exists")
        | .error .notFound => insert P subj input.name kind input.value
        | .error e => fail e

/-- The rest of an update, with the value that is to be sealed. -/
def replace (subj : Subjects) (type : AuditType) (row : TenantSecret) (value : Settings) :
    Svc View := do
  let blob ← sealValue P row.id value
  write (Sql.updateSecret P { row with valueSealed := blob, updatedBy := some subj.actorID })
  emit (event subj type row.id)
  get subj row.id

/-- The value an update seals. -/
def merged (stored incoming : Settings) : Settings :=
  stored.merge incoming (keysUnion stored incoming)

/-- `Update`: the kind does not change. -/
def update (subj : Subjects) (id : Id) (input : Input) : Svc View :=
  if !validName input.name then fail (.rejected "name" "name must be 1..100 chars")
  else do
    let row ← fetch (Sql.getSecret subj.tenantID id)
    let stored ← ofExcept (openValue P row)
    if (merged stored input.value).fields.length = 0 then
      fail (.rejected "value" "value cannot be emptied")
    else
      replace P subj .secretUpdated { row with name := input.name } (merged stored input.value)

/-- `Rotate`: nothing is merged. -/
def rotate (subj : Subjects) (id : Id) (value : Settings) : Svc View :=
  if value.fields.length = 0 then fail (.rejected "value" "value is required")
  else do
    let row ← fetch (Sql.getSecret subj.tenantID id)
    replace P subj .secretRotated row value

/-- `Page`. The views come with the creation times, which only this list shows. -/
def page (createdAt : Id → Time) (subj : Subjects) (req : PageRequest) :
    Svc (Page (View × Time)) := do
  let (rows, total, applied) ← fetch (Sql.pageSecrets P createdAt subj.tenantID req)
  pure ⟨rows.map fun r => (view r, createdAt r.id), total, applied⟩

end Lcm.Secrets
