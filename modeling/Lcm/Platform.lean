import Lcm.Settings
import Lcm.Store.Models
import Lcm.Db.Tx
import Lcm.Db.Window

/-!
# What the services stand on

* `Err`: the errors the services return and tell apart.
* `Env`: what the world decides at one step of a program, such as the clock, random numbers,
  the answer of the ACME CA, or that a repository call fails.
* `Platform`: the functions of Go's library and of the cipher that the services call, and the
  deployment's settings. Nothing is assumed about them here; a result that needs such a
  function to behave says so.
-/

namespace Lcm

/-! ## Errors -/

inductive Err where
  /-- `store.ErrNotFound` -/
  | notFound
  /-- `store.ErrConflict` -/
  | conflict
  /-- any other error of the database driver -/
  | database (text : String)
  /-- a statement in a transaction that a violation has aborted, or its commit -/
  | txAborted
  /-- `authz.ErrForbidden` -/
  | forbidden
  /-- `authz.ErrNotFound` -/
  | resourceNotFound
  /-- `issue.ValidationError` -/
  | invalid (field message : String)
  /-- the `issue.ValidationError` whose cause is `issue.ErrNoStoredKey` -/
  | noStoredKey
  /-- `enroll.ConflictError` -/
  | transition (id : Id) (source target : String)
  /-- `sealed.ErrTampered` -/
  | tampered
  /-- `sealed.ErrTooLarge` -/
  | tooLarge
  /-- the error of `sealed.Decode` for anything but a JSON object -/
  | notAnObject
  /-- `issue.InUseError` -/
  | inUse (what : String) (count : Nat)
  /-- `ca.ErrInput` -/
  | caInput
  /-- `ca.ErrParse` -/
  | caParse
  /-- `acme.ErrConfig` -/
  | acmeConfig
  /-- `transfer.ErrInvalid` -/
  | invalidDocument (detail : String)
  /-- `transfer.ErrMode` -/
  | importMode
  /-- the `ValidationError` of `secrets`, `webhook` and `deploy` -/
  | rejected (field message : String)
  /-- the `ConflictError` of `secrets` and `webhook` -/
  | taken (message : String)
  /-- an error of a library call: key generation, X.509, the ACME CA -/
  | external (text : String)
deriving DecidableEq

instance : Db.SqlError Err := ⟨.txAborted⟩

namespace Err

/-- `errors.Is(err, store.ErrConflict)`. -/
def isConflict : Err → Bool
  | conflict => true
  | transition _ _ _ => true
  | _ => false

def text : Err → String
  | notFound => "store: not found"
  | conflict => "store: conflict"
  | database t => t
  | txAborted => "commit unexpectedly resulted in rollback"
  | forbidden => "authz: forbidden"
  | resourceNotFound => "authz: resource not found"
  | invalid f m => if f = "" then "issue: " ++ m else "issue: " ++ f ++ ": " ++ m
  | noStoredKey => "issue: key: no stored private key for this certificate"
  | transition id a b => "enroll: cannot move " ++ toString id ++ " from " ++ a ++ " to " ++ b
  | tampered => "sealed: ciphertext rejected"
  | tooLarge => "sealed: settings exceed 8 KiB"
  | notAnObject => "sealed: settings must be a JSON object"
  | inUse what n => "issue: " ++ toString n ++ " " ++ what ++ " reference it"
  | caInput => "ca: invalid input"
  | caParse => "ca: material could not be parsed"
  | acmeConfig => "acme: invalid client configuration"
  | invalidDocument d => "transfer: invalid document: " ++ d
  | importMode => "transfer: mode must be skip or overwrite"
  | rejected f m => f ++ ": " ++ m
  | taken m => m
  | external t => t

end Err

/-! ## Keys and certificates -/

/-- A public key, as far as the strength check of a CSR looks at it. -/
inductive PublicKey where
  | rsa (bits n : Nat)
  | ecdsa (bits n : Nat)
  | ed25519 (n : Nat)
  | other (n : Nat)
deriving DecidableEq

structure PrivateKey where
  pub : PublicKey
deriving DecidableEq

/-- The parts of an X.509 certificate the services set or read. -/
structure X509 where
  serial : Nat
  commonName : String
  notBefore : Time
  notAfter : Time
  dnsNames : List String
  uris : List String
  otherNames : Bool
  isCA : Bool
  pub : PublicKey
  issuerDN : String
deriving DecidableEq

/-- The parts of a PKCS#10 request the services read. -/
structure CertificateSigningRequest where
  pub : PublicKey
  dnsNames : List String
  signatureOK : Bool
  raw : Blob
deriving DecidableEq

/-- What `net/url` makes of a text. -/
structure Url where
  scheme : String
  opaquePart : String
  hasUser : Bool
  hostname : String
  port : String
  path : String
  rawQuery : String
  forceQuery : Bool
  fragment : String
  rawFragment : String
  /-- `String` -/
  text : String
deriving DecidableEq

structure PemBlock where
  type : String
  bytes : Blob
deriving DecidableEq

structure RevocationListEntry where
  serialNumber : Int
  revocationTime : Time
deriving DecidableEq

structure RevocationList where
  number : Int
  thisUpdate : Time
  nextUpdate : Time
  entries : List RevocationListEntry
deriving DecidableEq

/-! ## The choices of the world -/

/-- Whether a repository call fails for a reason outside the data: before its transaction
begins, or in one of its statements or its commit. -/
inductive Fault where
  | ok
  | begin (text : String)
  | stmt (text : String)
deriving DecidableEq

/-- What the world decides at one step. -/
structure Env where
  /-- the service's clock -/
  clock : Time
  /-- `now()` in the database -/
  dbNow : Time
  /-- the ids `store.NewID` returns during the step -/
  newID : Nat → Id
  fault : Fault
  /-- the generated key; `none` when the generator fails -/
  key : Option PrivateKey
  /-- the random number of at most 128 bits; `none` when the source fails -/
  random : Option Nat
  /-- the nonces of sealing and signing -/
  nonce : Nat
  /-- in which order the database returns rows that a query does not order -/
  tie : Id → Nat
  /-- the caller's context has been cancelled -/
  cancelled : Bool
  /-- the answer to the registration of an ACME account -/
  register : Except Err Unit
  /-- the answer to an ACME order: the PEM chain -/
  order : Except Err String

/-! ## Library functions and settings -/

/-- What the services are linked with. -/
structure Platform where
  /-- `url.Parse` -/
  urlParse : String → Option Url
  /-- the `Host` of what `url.Parse` returns -/
  urlHost : String → String := fun _ => ""
  /-- `strings.ToLower` -/
  toLower : String → String
  /-- `strings.TrimSpace` -/
  trimSpace : String → String
  /-- `pem.Decode`: the first block and the text after it -/
  pemDecode : String → Option (PemBlock × String)
  /-- the `Proc-Type` header of the block `pem.Decode` finds -/
  pemProcType : String → String := fun _ => ""
  /-- `pem.EncodeToMemory` -/
  pemEncode : PemBlock → String
  /-- `x509.ParseCertificateRequest`, with `CheckSignature` -/
  parseCertificateRequest : Blob → Option CertificateSigningRequest
  /-- `x509.CreateCertificateRequest` for a common name and DNS names -/
  createCertificateRequest : Nat → String → List String → PrivateKey → Except Err Blob
  /-- `x509.ParsePKCS8PrivateKey`, when the key is a signer -/
  parsePKCS8 : Blob → Option PrivateKey
  /-- the bytes are a PKCS#8 key that is not a signer -/
  pkcs8NoSigner : Blob → Bool := fun _ => false
  /-- `x509.ParsePKCS1PrivateKey` -/
  parsePKCS1 : Blob → Option PrivateKey := fun _ => none
  /-- `x509.ParseECPrivateKey` -/
  parseEC : Blob → Option PrivateKey
  /-- `x509.MarshalPKCS8PrivateKey` -/
  marshalPKCS8 : PrivateKey → Except Err Blob
  /-- `x509.ParseCertificate` -/
  parseCertificate : Blob → Except Err X509
  /-- `x509.CreateCertificate`: template, parent, subject key, signer -/
  createCertificate : Nat → X509 → X509 → PublicKey → PrivateKey → Except Err Blob
  /-- `x509.CreateRevocationList` for a list whose entries it accepts: list, issuer, signer -/
  signRevocationList : Nat → RevocationList → X509 → PrivateKey → Except Err Blob
  /-- `hex(sha256(der))` -/
  sha256 : Blob → String
  /-- `Envelope.Seal`: nonces, plaintext, associated data -/
  envSeal : Nat → String → String → Except Err Blob
  /-- `Envelope.Open`; an error is `ErrTampered` -/
  envOpen : Blob → String → Option String
  /-- `sealed.Decode` -/
  decodeSettings : String → Except Err Settings
  /-- `json.Marshal` of settings -/
  marshalSettings : Settings → Except Err String
  /-- `acme.NewProviderWith` succeeds for this provider, credentials and tenant -/
  dnsProviderOK : String → Settings → Id → Bool
  /-- `decodeEABKey` -/
  decodeEABKey : String → Option Blob
  /-- `acme.isLoopbackDirectory` -/
  isLoopbackDirectory : String → Bool
  /-- `lower()` in the database -/
  sqlLower : String → String
  /-- the order of text in the database -/
  sqlLess : String → String → Bool
  /-- `listquery` over the database -/
  listQuery : Db.ListQuery
  /-- `t.UTC().Format(time.RFC3339Nano)` -/
  formatTime : Time → String
  /-- `time.Parse(time.RFC3339Nano, ·)` -/
  parseTime : String → Option Time
  /-- the text of a UUID -/
  uuidText : Id → String
  /-- `::uuid` in the database -/
  parseUUID : String → Option Id
  /-- `enroll.Config.MaxAttempts` -/
  maxAttempts : Nat
  /-- `enroll.SchedulerConfig` -/
  jobLease : Duration
  jobBatch : Nat
  /-- `renew.Config` -/
  shortLivedFraction : Rat
  longLivedWindow : Duration

end Lcm
