import Lcm.Ca

/-!
# Revocation distribution

`revoke.go`: the trust bundle of a domain, the revocation feed and the CRL. `CRL` pages through
the revocations in an unbounded loop; the model takes the number of pages it may read and
returns `none` when they were not enough.
-/

namespace Lcm.Revoke

open Conc Db Svc

variable (P : Platform)

/-- One revoked serial in the feed. -/
structure RevocationView where
  serial : String
  reason : String
  revokedAt : Time
deriving DecidableEq

/-- `Feed`: newest first, below the cursor. -/
def feed (tenantID : Id) (cursor : Time) (limit : Int) : Svc (List RevocationView) := do
  let limit := if limit ≤ 0 ∨ limit > 1000 then 500 else limit
  let cursor ← if cursor = 0 then now else pure cursor
  let rows ← fetch (Sql.listRevocations tenantID cursor limit.toNat)
  pure (rows.map fun r => ⟨r.serial, r.reason, r.revokedAt⟩)

/-- The value of a text of decimal digits. -/
def parseDigits (cs : List Char) : Option Nat :=
  if cs = [] then none
  else if cs.all Char.isDigit then some (cs.foldl (fun n c => 10 * n + (c.toNat - '0'.toNat)) 0)
  else none

/-- `new(big.Int).SetString(s, 10)`: an optional sign and decimal digits. -/
def parseDecimal (s : String) : Option Int :=
  match s.toList with
  | '-' :: cs => (parseDigits cs).map fun n => -Int.ofNat n
  | '+' :: cs => (parseDigits cs).map Int.ofNat
  | cs => (parseDigits cs).map Int.ofNat

/-- The entry of a revocation row; a row whose serial is not a decimal number has none. -/
def crlEntry (r : Revocation) : Option RevocationListEntry :=
  (parseDecimal r.serial).map fun serial => ⟨serial, r.revokedAt⟩

/-- How many rows a page of the CRL loop asks for. -/
def pageSize : Nat := 1000

/-- One row of a page: it adds its entry and moves the cursor, or is skipped. -/
def addRow (acc : List RevocationListEntry × Time) (r : Revocation) :
    List RevocationListEntry × Time :=
  match crlEntry r with
  | none => acc
  | some x => (acc.1 ++ [x], r.revokedAt)

/-- The loop of `CRL`, for at most the given number of pages. -/
def crlPages (tenantID : Id) :
    Nat → Time → List RevocationListEntry → Svc (Option (List RevocationListEntry))
  | 0, _, _ => pure none
  | pages + 1, cursor, entries => do
    let rows ← fetch (Sql.listRevocations tenantID cursor pageSize)
    if rows.length = 0 then pure (some entries)
    else
      let acc := rows.foldl addRow (entries, cursor)
      if rows.length < pageSize then pure (some acc.1)
      else crlPages tenantID pages acc.2 acc.1

/-- Seconds from Go's zero time to the Unix epoch. -/
def unixEpoch : Int := 62135596800

def unix (t : Time) : Int := t / second - unixEpoch

/-- The list `CRL` signs, with the CA certificate and its key. -/
def crlTemplate (pages : Nat) (tenantID : Id) (trustDomain : String) :
    Svc (Option (RevocationList × X509 × PrivateKey)) := do
  let caRow ← fetch (Sql.caByState tenantID trustDomain .active)
  let signer ← ofExcept (Ca.signer P caRow)
  let cursor ← now
  let entries ← crlPages tenantID pages cursor []
  let now ← now
  pure (entries.map fun entries =>
    (⟨unix now, now, now + 24 * 3600 * second, entries⟩, signer.2, signer.1))

/-- `x509.CreateRevocationList`, which rejects an entry with the zero time. -/
def createRevocationList (nonce : Nat) (l : RevocationList) (caCert : X509) (key : PrivateKey) :
    Except Err Blob :=
  if l.entries.any fun x => x.revocationTime == 0 then
    .error (.external "x509: template contains entry with zero RevocationTime field")
  else P.signRevocationList nonce l caCert key

/-- Sign the list and encode it. -/
def signCRL : Option (RevocationList × X509 × PrivateKey) → Svc (Option String)
  | none => pure none
  | some (l, caCert, key) => do
    let der ← askExcept fun e => createRevocationList P e.nonce l caCert key
    pure (some (P.pemEncode ⟨"X509 CRL", der⟩))

def crl (pages : Nat) (tenantID : Id) (trustDomain : String) : Svc (Option String) := do
  let list ← crlTemplate P pages tenantID trustDomain
  signCRL P list

end Lcm.Revoke
