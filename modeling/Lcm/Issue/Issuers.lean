import Lcm.Issue.Mint
import Lcm.Transfer.Backup

/-!
# Issuer administration

`issuers.go`: an issuer is created, rewritten and deleted by those who may. Its settings are
kept under seal, with what clients may see beside them. A self-signed issuer is anchored in the
CA of its trust domain; type and trust domain do not change afterwards. The previous default of
a trust domain is cleared in the transaction that sets the new one.
-/

namespace Lcm.Issue

open Db Svc Ca Authz Tx Sql

variable (P : Platform)

def anyTrustDomain : String := "*"

/-- `acme.IsSupported`. -/
def dnsProviderSupported (name : String) : Bool :=
  name == "cloudflare" || name == "manual" || name == "freya-dns"

def issuerType? (type : String) : Option IssuerType :=
  if type = "self_signed" then some .selfSigned else if type = "acme" then some .acme else none

/-- The type as the database spells it. -/
def issuerTypeText : IssuerType → String
  | .selfSigned => "self_signed"
  | .acme => "acme"

def validIssuerTrustDomain (type : IssuerType) (trustDomain : String) : Bool :=
  if trustDomain = anyTrustDomain then type == .acme else validTrustDomain trustDomain

/-- `validate`: the type of the issuer, if the request has the right shape. -/
def validate (input : IssuerInput) : Except Err IssuerType :=
  if input.name.utf8ByteSize < 1 ∨ input.name.utf8ByteSize > 100 then
    .error (invalid "name" "name must be 1-100 characters")
  else match issuerType? input.type with
    | none => .error (invalid "type" "type must be self_signed or acme")
    | some type =>
      if input.trustDomain = anyTrustDomain ∧ type ≠ .acme then
        .error (invalid "trust_domain" "* (any trust domain) is allowed for ACME issuers only")
      else if !validIssuerTrustDomain type input.trustDomain then
        .error (invalid "trust_domain" "trust domain is not a valid host")
      else if type = .acme ∧ input.dnsProvider ≠ "" ∧ !dnsProviderSupported input.dnsProvider then
        .error (invalid "dns_provider" ("DNS provider " ++ input.dnsProvider ++ " is not supported"))
      else .ok type

/-- `seal`: the settings under seal, and what clients may see of them. -/
def sealSettings (id : Id) (settings : Settings) : Svc (Blob × String) :=
  match Transfer.encodeSettings P settings with
  | .error _ => fail (invalid "settings" "settings exceed 8 KiB")
  | .ok clear => do
    let blob ← askExcept fun e => P.envSeal e.nonce clear (adIssuer id)
    let shown ← ofExcept
      (Transfer.encodeSettings P (settings.redact Transfer.issuerSecretFields))
    pure (blob, shown)

def redacted (row : Issuer) : Settings :=
  match P.decodeSettings row.settingsPublic with
  | .ok shown => shown
  | .error _ => .empty

def issuerView (row : Issuer) (certificateCount : Nat) (p : Permissions) : IssuerView where
  id := row.id
  name := row.name
  type := row.type
  trustDomain := row.trustDomain
  isDefault := row.isDefault
  caID := row.caID
  acmeDirectoryURL := row.acmeDirectoryURL
  acmeEmail := row.acmeEmail
  dnsProvider := row.dnsProvider
  settings := redacted P row
  enabled := row.enabled
  certificateCount := certificateCount
  createdBy := row.createdBy
  updatedBy := row.updatedBy
  permissions := p

def getIssuer (subj : Subjects) (id : Id) : Svc IssuerView := do
  check subj .issuer id .read
  let (row, count) ← fetch (countedIssuer subj.tenantID id)
  let perms ← effective subj .issuer id
  pure (issuerView P row count perms)

/-- `ensureACMEAccountKey`: the settings with an account key, generated if there is none. -/
def ensureACMEAccountKey (settings : Settings) : Svc Settings :=
  if settings.str "acme_account_key" ≠ "" then pure settings
  else do
    let key ← generateKey
    let pemKey ← ofExcept (encodeKey P key)
    pure (settings.set "acme_account_key" (.str pemKey))

def newIssuer (subj : Subjects) (input : IssuerInput) (id : Id) (type : IssuerType)
    (caID : Option Id) (blob : Blob) (shown : String) : Issuer where
  id := id
  tenantID := subj.tenantID
  name := input.name
  type := type
  trustDomain := input.trustDomain
  isDefault := input.isDefault
  caID := caID
  acmeDirectoryURL := input.acmeDirectoryURL
  acmeEmail := input.acmeEmail
  dnsProvider := input.dnsProvider
  settingsPublic := shown
  settingsSealed := blob
  enabled := input.enabled
  createdBy := userPtr subj
  updatedBy := userPtr subj

def nameTaken (m : Sql Unit) : Sql Unit := do
  match ← m.attempt with
  | .ok () => pure ()
  | .error e =>
    if e.isConflict then fail (invalid "name" "an issuer with this name already exists")
    else fail e

/-- The transaction of `CreateIssuer`. -/
def createTx (subj : Subjects) (row : Issuer) : Sql Unit := do
  if row.isDefault then
    clearDefaultIssuer row.tenantID row.trustDomain row.id
  nameTaken (insertIssuer P row)
  grantOwner row.tenantID .issuer row.id subj.userID

def issuerEvent (subj : Subjects) (type : AuditType) (id : Id) : AuditEvent :=
  ⟨subj.tenantID, type, subj.actorKind, subj.actorID, some id, .ok, ""⟩

/-- The CA of a new issuer; an ACME issuer has none. -/
def anchorCA (tenantID : Id) (type : IssuerType) (trustDomain : String) : Svc (Option Id) :=
  match type with
  | .selfSigned => do
    let caRow ← ensureCA P tenantID trustDomain
    pure (some caRow.id)
  | .acme => pure none

/-- The settings of a new issuer: an ACME issuer needs an account key. -/
def newSettings (type : IssuerType) (settings : Settings) : Svc Settings :=
  if type = .acme then ensureACMEAccountKey P settings else pure settings

def createIssuer (subj : Subjects) (input : IssuerInput) : Svc IssuerView := do
  let type ← ofExcept (validate input)
  let settings ← newSettings P type input.settings
  let id ← newID
  let (blob, shown) ← sealSettings P id settings
  let caID ← anchorCA P subj.tenantID type input.trustDomain
  let row := newIssuer subj input id type caID blob shown
  repo (.insertIssuer row) (createTx P subj row)
  emit (issuerEvent subj .issuerCreated id)
  getIssuer P subj id

/-- The stored settings of an issuer; those that do not open are as good as none. -/
def storedSettings (row : Issuer) : Settings :=
  match issuerSettings P row with
  | .ok stored => stored
  | .error _ => .empty

/-- The row with the changes of an update. -/
def IssuerInput.apply (input : IssuerInput) (subj : Subjects) (row : Issuer) (blob : Blob)
    (shown : String) : Issuer :=
  { row with
    name := input.name, isDefault := input.isDefault, enabled := input.enabled,
    acmeDirectoryURL := input.acmeDirectoryURL, acmeEmail := input.acmeEmail,
    dnsProvider := input.dnsProvider, settingsSealed := blob, settingsPublic := shown,
    updatedBy := userPtr subj }

/-- The transaction of `UpdateIssuer`; `wasDefault` is the flag as it was read before. -/
def updateTx (wasDefault : Bool) (row : Issuer) : Sql Unit := do
  if row.isDefault && !wasDefault then
    clearDefaultIssuer row.tenantID row.trustDomain row.id
  nameTaken (updateIssuer P row)

/-- `UpdateIssuer`: type and trust domain stay as they are. -/
def updateIssuer (subj : Subjects) (id : Id) (input : IssuerInput) : Svc IssuerView := do
  check subj .issuer id .write
  let row ← fetch (Sql.getIssuer subj.tenantID id)
  if input.type ≠ "" ∧ input.type ≠ issuerTypeText row.type then
    fail (invalid "type" "the issuer type cannot change")
  else
    let _ ← ofExcept
      (validate { input with type := issuerTypeText row.type, trustDomain := row.trustDomain })
    let merged := (storedSettings P row).merge input.settings Transfer.issuerSecretFields
    let (blob, shown) ← sealSettings P id merged
    let new := IssuerInput.apply input subj row blob shown
    repo (.updateIssuer new) (updateTx P row.isDefault new)
    emit (issuerEvent subj .issuerUpdated id)
    getIssuer P subj id

/-- The transaction of `DeleteIssuer`. -/
def deleteTx (tenantID id : Id) : Sql Unit := do
  match ← (deleteIssuer tenantID id).attempt with
  | .ok () => dropResource tenantID .issuer id
  | .error e => if e.isConflict then fail (.inUse "certificates" 1) else fail e

/-- `DeleteIssuer`: certificates of the issuer refuse it. -/
def deleteIssuer (subj : Subjects) (id : Id) : Svc Unit := do
  check subj .issuer id .delete
  let (_, count) ← fetch (countedIssuer subj.tenantID id)
  if count > 0 then fail (.inUse "certificates" count)
  else
    repo (.deleteIssuer subj.tenantID id) (deleteTx subj.tenantID id)
    emit (issuerEvent subj .issuerDeleted id)

/-! ## What is quiet -/

theorem quiet_sealSettings (id : Id) (settings : Settings) :
    Quiet (sealSettings P id settings) := by
  unfold sealSettings
  split
  · exact only_fail _
  · exact only_bind (quiet_askExcept _) fun _ => only_bind (only_ofExcept _) fun _ => only_pure _

theorem quiet_getIssuer (subj : Subjects) (id : Id) : Quiet (getIssuer P subj id) := by
  refine only_bind (quiet_check _ _ _ _) fun _ => ?_
  refine only_bind (quiet_fetch (readOnly_countedIssuer _ _)) fun _ => ?_
  exact only_bind (quiet_effective _ _ _) fun _ => only_pure _

theorem looks_ensureACMEAccountKey (settings : Settings) :
    Only Ev.Looks (ensureACMEAccountKey P settings) := by
  refine only_ite (only_pure _) (only_bind looks_generateKey fun _ => ?_)
  exact only_bind (only_ofExcept _) fun _ => only_pure _

/-! ## What the transactions keep -/

section Holds

variable {P} {I : Database → Prop}

theorem holds_nameTaken {m : Sql Unit} (hm : Holds I (fun _ => True) m) :
    Holds I (fun _ => True) (nameTaken m) := by
  refine Holds.bind (Holds.attempt hm) fun r _ => ?_
  cases r with
  | ok _ => exact Holds.pure trivial
  | error e => exact Holds.ite (fun _ => Holds.fail _) fun _ => Holds.fail _

theorem holds_grantOwner (hgrants : ∀ s t, I s → I { s with grants := t }) (t : Id)
    (type : ResourceType) (id : Id) (u : String) :
    Holds I (fun _ => True) (grantOwner t type id u) := by
  refine Holds.ite (fun _ => Holds.pure trivial) fun _ => ?_
  refine Holds.bind (holds_draw_any _) fun _ _ => ?_
  exact Holds.bind (holds_upsertGrant hgrants _) fun _ _ => Holds.pure trivial

theorem holds_createTx {subj : Subjects} {row : Issuer}
    (hclear : row.isDefault = true → Holds I (fun _ => True)
      (clearDefaultIssuer row.tenantID row.trustDomain row.id))
    (hinsert : Holds I (fun _ => True) (insertIssuer P row))
    (hgrants : ∀ s t, I s → I { s with grants := t }) :
    Holds I (fun _ => True) (createTx P subj row) := by
  have hrest : Holds I (fun _ => True) (do
      nameTaken (insertIssuer P row)
      grantOwner row.tenantID .issuer row.id subj.userID) :=
    Holds.bind (holds_nameTaken hinsert) fun _ _ => holds_grantOwner hgrants _ _ _ _
  unfold createTx
  split
  · next hdef => exact Holds.bind (hclear hdef) fun _ _ => hrest
  · exact hrest

theorem holds_updateTx {row : Issuer} {wasDefault : Bool}
    (hclear : row.isDefault = true → Holds I (fun _ => True)
      (clearDefaultIssuer row.tenantID row.trustDomain row.id))
    (hupdate : Holds I (fun _ => True) (Sql.updateIssuer P row)) :
    Holds I (fun _ => True) (updateTx P wasDefault row) := by
  unfold updateTx
  split
  · next hdef =>
    refine Holds.bind (hclear ?_) fun _ _ => holds_nameTaken hupdate
    simp only [Bool.and_eq_true] at hdef
    exact hdef.1
  · exact holds_nameTaken hupdate

theorem holds_deleteTx {t id : Id}
    (hdelete : Holds I (fun _ => True) (Sql.deleteIssuer t id))
    (hgrants : ∀ s t, I s → I { s with grants := t }) :
    Holds I (fun _ => True) (deleteTx t id) := by
  refine Holds.bind (Holds.attempt hdelete) fun r _ => ?_
  cases r with
  | ok _ =>
    refine Holds.stmt fun s s' a hI h => ?_
    cases h
    exact ⟨hgrants _ _ hI, trivial⟩
  | error e => exact Holds.ite (fun _ => Holds.fail _) fun _ => Holds.fail _

end Holds

end Lcm.Issue
