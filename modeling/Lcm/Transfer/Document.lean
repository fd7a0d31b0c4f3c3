import Lcm.Settings
import Lcm.Store.Models

/-!
# Backup documents

The document of `backup.go` after it has been decoded, and the report of an import. A text
field that the schema restricts to a few values is an enumeration.
-/

namespace Lcm.Transfer

/-- An exported issuer. Credentials are present only when the export includes them. -/
structure DocIssuer where
  name : String
  type : IssuerType
  trustDomain : String
  isDefault : Bool
  settings : Settings
  credentials : Settings
deriving DecidableEq

/-- An exported certificate. It never carries the private key. -/
structure DocCertificate where
  serial : String
  spiffeID : String
  issuer : String
  subject : String
  sans : List String
  notBefore : Time
  notAfter : Time
  fingerprintSHA256 : String
  status : CertStatus
  certPEM : String
  chainPEM : String
deriving DecidableEq

/-- An exported grant; `resourceRef` is the issuer's name or the certificate's serial. -/
structure DocPermission where
  resourceType : ResourceType
  resourceRef : String
  subjectType : SubjectType
  subjectID : String
  relation : Relation
  expiresAt : Option Time
deriving DecidableEq

/-- An exported tenant secret. -/
structure DocSecret where
  name : String
  kind : SecretKind
  value : String
deriving DecidableEq

structure Document where
  version : Nat
  exportedAt : Time
  tenant : Id
  includesCredentials : Bool
  issuers : List DocIssuer
  certificates : List DocCertificate
  permissions : List DocPermission
  secrets : List DocSecret
deriving DecidableEq

/-- The outcome of an import. -/
structure Report where
  issuersCreated : Nat
  issuersSkipped : Nat
  certificatesCreated : Nat
  certificatesSkipped : Nat
  grantsCreated : Nat
  secretsCreated : Nat
deriving DecidableEq

/-- Nothing imported yet. -/
def Report.empty : Report := ⟨0, 0, 0, 0, 0, 0⟩

end Lcm.Transfer
