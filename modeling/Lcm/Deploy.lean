import Lcm.Secrets

/-!
# Deployment targets

`deploy.go`: the destinations certificates are deployed to. A configuration that holds a credential
is kept under seal, with its other fields beside it; a view shows the marker in place of every
credential field, whether it was set or not. What workloads report as installed is not modelled.
-/

namespace Lcm.Deploy

open Db Svc Ca

variable (P : Platform)

structure TargetInput where
  name : String
  kind : String
  config : Settings
deriving DecidableEq

/-- A target as clients see it. -/
structure TargetView where
  id : Id
  name : String
  kind : String
  config : Settings
  createdAt : Time
deriving DecidableEq

def targetSecretFields : List String := ["token", "password", "secret", "key"]

def hasSecret (s : Settings) (fields : List String) : Bool :=
  fields.any fun f => s.str f != "" && s.str f != Settings.marker

def view (r : DeploymentTarget) : TargetView :=
  let shown := match P.decodeSettings r.configPublic with
    | .ok cfg => cfg
    | .error _ => .empty
  ⟨r.id, r.name, r.kind,
    if r.configSealed.length > 0 then
      targetSecretFields.foldl (fun cfg f => cfg.set f (.str Settings.marker)) shown
    else shown,
    r.createdAt⟩

/-- The configuration under seal, if it holds a credential. -/
def sealConfig (id : Id) (config : Settings) : Svc Blob :=
  if hasSecret config targetSecretFields then
    match Transfer.encodeSettings P config with
    | .error _ => fail (.rejected "config" "config too large")
    | .ok raw => askExcept fun e => P.envSeal e.nonce raw (adTarget id)
  else pure []

/-- The fields that are not credentials, encoded. -/
def publicConfig (config : Settings) : Except Err String :=
  match Transfer.encodeSettings P (config.publicPart targetSecretFields) with
  | .error _ => .error (.rejected "config" "config too large")
  | .ok shown => .ok shown

def newTarget (subj : Subjects) (input : TargetInput) (id : Id) (now : Time) (shown : String)
    (blob : Blob) : DeploymentTarget :=
  ⟨id, subj.tenantID, input.name, input.kind, shown, blob, some subj.actorID, some subj.actorID, now⟩

def createTarget (subj : Subjects) (input : TargetInput) : Svc TargetView :=
  if !Secrets.validName input.name then fail (.rejected "name" "name must be 1..100 chars")
  else if !(["file", "pull", "webhook"].contains input.kind) then
    fail (.rejected "kind" "kind must be file, pull or webhook")
  else do
    let id ← newID
    let now ← Svc.now
    let shown ← ofExcept (publicConfig P input.config)
    let blob ← sealConfig P id input.config
    let row := newTarget subj input id now shown blob
    repo (fun _ => .writeCredentials) (Sql.insertTarget P row)
    emit (Secrets.event subj .certificateDeployed id)
    pure (view P row)

def listTargets (subj : Subjects) : Svc (List TargetView) := do
  let rows ← fetch (Sql.listTargets P subj.tenantID)
  pure (rows.map (view P))

/-- `Deploy`: the intent is recorded, the delivery is the business of the webhooks. -/
def deploy (subj : Subjects) (certID targetID : Id) : Svc TargetView := do
  Authz.check subj .certificate certID .write
  let target ← fetch (Sql.getTarget subj.tenantID targetID)
  let _ ← fetch (Sql.getCertificate subj.tenantID certID)
  emit (Secrets.event subj .certificateDeployed certID)
  pure (view P target)

end Lcm.Deploy
