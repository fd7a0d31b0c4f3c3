import Lcm.Secrets

/-!
# Webhook endpoints

`webhook.go`: the callback subscriptions of a tenant. The signing secret of an endpoint is kept
under seal and is part of no view. `Lcm.Callbacks` has the deliveries.
-/

namespace Lcm.Webhook

open Db Svc Ca

variable (P : Platform)

/-- A new endpoint; an empty secret asks for a generated one. -/
structure Input where
  name : String
  url : String
  eventTypes : List String
  secret : String
deriving DecidableEq

/-- An endpoint as clients see it. -/
structure View where
  id : Id
  name : String
  url : String
  eventTypes : List String
  enabled : Bool
  createdAt : Time
deriving DecidableEq

def validEvent (t : String) : Bool :=
  ["certificate.issued", "certificate.renewed", "certificate.revoked", "certificate.failed"].contains t

def view (r : WebhookEndpoint) : View := ⟨r.id, r.name, r.url, r.eventTypes, r.enabled, r.createdAt⟩

def validateURL (raw : String) : Except Err Unit :=
  if raw = "" then .error (.rejected "url" "url is required")
  else if raw.utf8ByteSize > 2048 then .error (.rejected "url" "url must be at most 2048 chars")
  else match P.urlParse raw with
    | none => .error (.rejected "url" "url must be an absolute http(s) URL")
    | some u =>
      if P.urlHost raw = "" ∨ (u.scheme ≠ "http" ∧ u.scheme ≠ "https") then
        .error (.rejected "url" "url must be an absolute http(s) URL")
      else .ok ()

/-- The event types of a new endpoint, each once. -/
def subscribed : List String → List String → Except Err (List String)
  | [], events => .ok events
  | e :: rest, events =>
    if !validEvent e then .error (.rejected "event_types" ("unknown event type " ++ e))
    else if events.contains e then subscribed rest events
    else subscribed rest (events ++ [e])

/-- A number as hexadecimal text of the given length. -/
def hexText (length n : Nat) : String :=
  String.ofList (List.replicate (length - (Nat.toDigits 16 n).length) '0' ++ Nat.toDigits 16 n)

/-- `generateSecret`: random bytes as hexadecimal text. A failing source leaves them zero. -/
def generateSecret : Svc String := ask (fun e => hexText 64 (e.random.getD 0)) fun _ => .look

def signingSecret (given : String) : Svc String :=
  if given = "" then generateSecret else pure given

def newEndpoint (subj : Subjects) (input : Input) (id : Id) (events : List String) (blob : Blob) :
    WebhookEndpoint :=
  ⟨id, subj.tenantID, input.name, input.url, events, blob, true, some subj.actorID,
    some subj.actorID, 0⟩

/-- The write of a new endpoint. -/
def write (m : Sql Unit) : Svc Unit := do
  match ← attempt (repo (fun _ => .writeCredentials) m) with
  | .ok () => pure ()
  | .error e => fail (if e.isConflict then .taken "a webhook with that name already exists" else e)

def create (subj : Subjects) (input : Input) : Svc View :=
  if !Secrets.validName input.name then fail (.rejected "name" "name must be 1..100 chars")
  else do
    ofExcept (validateURL P input.url)
    if input.eventTypes.length = 0 then
      fail (.rejected "event_types" "at least one event type is required")
    else
      let events ← ofExcept (subscribed input.eventTypes [])
      let secret ← signingSecret input.secret
      let id ← newID
      let blob ← askExcept fun e => P.envSeal e.nonce secret (adWebhook id)
      write (Sql.insertWebhook P (newEndpoint subj input id events blob))
      emit (Secrets.event subj .webhookCreated id)
      let row ← fetch (Sql.getWebhook subj.tenantID id)
      pure (view row)

def list (subj : Subjects) : Svc (List View) := do
  let rows ← fetch (Sql.listWebhooks P subj.tenantID)
  pure (rows.map view)

def page (subj : Subjects) (req : PageRequest) : Svc (Page View) := do
  let (rows, total, applied) ← fetch (Sql.pageWebhooks P subj.tenantID req)
  pure ⟨rows.map view, total, applied⟩

end Lcm.Webhook
