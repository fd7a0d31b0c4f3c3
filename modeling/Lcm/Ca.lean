import Lcm.Csr
import Lcm.Service.Rules
import Mathlib.Algebra.Ring.Int.Defs

/-!
# The self-signed certificate authority

`ca.go`: the signer of a CA row, the trust bundle of a domain, serial numbers, the root of a
trust domain, which is generated the first time it is asked for, and the leaves that are signed
at bootstrap.
-/

namespace Lcm.Ca

open Db Svc

variable (P : Platform) {s : Database}

def adCA (id : Id) : String := "ca:" ++ toString id

def adCertKey (id : Id) : String := "certkey:" ++ toString id

def adIssuer (id : Id) : String := "issuer:" ++ toString id

def adSecret (id : Id) : String := "secret:" ++ toString id

def adWebhook (id : Id) : String := "webhook:" ++ toString id

def adTarget (id : Id) : String := "target:" ++ toString id

/-- `Signer`: open the sealed CA key and parse the CA certificate. -/
def signer (ca : CA) : Except Err (PrivateKey × X509) := do
  let some keyPEM := P.envOpen ca.keySealed (adCA ca.id) | .error .tampered
  let some (block, _) := P.pemDecode keyPEM | .error .caParse
  let some key := P.parsePKCS8 block.bytes | .error .caParse
  let some (certBlock, _) := P.pemDecode ca.certPEM | .error .caParse
  match P.parseCertificate certBlock.bytes with
  | .ok cert => .ok (key, cert)
  | .error _ => .error .caParse

/-- `Bundle`: the PEM of the active and retiring roots. -/
def bundle (tenantID : Id) (trustDomain : String) : Svc String := do
  let cas ← fetch (Sql.casForDomain tenantID trustDomain)
  pure (String.join ((cas.filter fun c => c.state == .active || c.state == .retiring).map
    CA.certPEM))

/-- `randomSerial`: a positive number of at most 128 bits, and one more. -/
def randomSerial : Svc Nat :=
  askExcept fun e => match e.random with
    | some n => .ok (n % 2 ^ 128 + 1)
    | none => .error (.external "rand: entropy source failed")

/-! ## Roots -/

/-- `rootValidity`: ten years. -/
def rootValidity : Duration := 10 * 365 * 24 * 3600 * second

/-- `validTrustDomain`: a non-empty run of at most 253 letters, digits, dots and hyphens. -/
def validTrustDomain (host : String) : Bool :=
  decide (host ≠ "") && decide (host.utf8ByteSize ≤ 253) && Csr.validTrustDomain host

def rootTemplate (trustDomain : String) (uri : Url) (pub : PublicKey) (now : Time)
    (serial : Nat) : X509 where
  serial := serial
  commonName := trustDomain ++ " LCM Root"
  notBefore := now
  notAfter := now + rootValidity
  dnsNames := []
  uris := [uri.text]
  otherNames := false
  isCA := true
  pub := pub
  issuerDN := ""

/-- The random values of a root, which may fail. -/
def rootSecrets (key : Option PrivateKey) (random : Option Nat) : Except Err (PrivateKey × Nat) :=
  match key, random with
  | none, _ => .error (.external "crypto: key generation failed")
  | some _, none => .error (.external "rand: entropy source failed")
  | some priv, some n => .ok (priv, n % 2 ^ 128 + 1)

/-- `generate`, inside the transaction: a fresh self-signed root, its key under seal. -/
def generate (tenantID : Id) (trustDomain : String) : Sql CA := do
  let id ← Sql.newID
  let key ← Tx.ask Env.key
  let random ← Tx.ask Env.random
  let (priv, serial) ← Tx.ofExcept (rootSecrets key random)
  match P.urlParse ("spiffe://" ++ trustDomain) with
  | none => Tx.fail .caInput
  | some uri =>
    let now ← Tx.ask Env.clock
    let tmpl := rootTemplate trustDomain uri priv.pub now serial
    let nonce ← Sql.newNonce
    let der ← Tx.ofExcept (P.createCertificate nonce tmpl tmpl priv.pub priv)
    let keyDER ← Tx.ofExcept (P.marshalPKCS8 priv)
    let nonce ← Sql.newNonce
    let blob ← Tx.ofExcept (P.envSeal nonce (P.pemEncode ⟨"PRIVATE KEY", keyDER⟩) (adCA id))
    pure ⟨id, tenantID, trustDomain, Csr.encodeCertPEM P der, blob, .active, tmpl.notBefore,
      tmpl.notAfter, toString serial, 0⟩

/-- What becomes of an insert: on a conflict the winner is read, in the transaction the
conflict has aborted. -/
def wonOr (tenantID : Id) (trustDomain : String) (fresh : CA) : Except Err Unit → Sql CA
  | .ok () => pure fresh
  | .error e =>
    if e.isConflict then Sql.caByState tenantID trustDomain .active else Tx.fail e

/-- The transaction of `EnsureCA`, after its second look. -/
def ensureOr (tenantID : Id) (trustDomain : String) : Except Err CA → Sql CA
  | .ok again => pure again
  | .error .notFound => do
    let fresh ← generate P tenantID trustDomain
    wonOr tenantID trustDomain fresh (← (Sql.insertCA fresh).attempt)
  | .error e => Tx.fail e

/-- The transaction of `EnsureCA`. -/
def ensureTx (tenantID : Id) (trustDomain : String) : Sql CA := do
  ensureOr P tenantID trustDomain (← (Sql.caByState tenantID trustDomain .active).attempt)

/-- `EnsureCA`: the active CA of the trust domain, generated the first time. -/
def ensureCA (tenantID : Id) (trustDomain : String) : Svc CA := do
  if !validTrustDomain trustDomain then fail .caInput
  else
    let r ← attempt (fetch (Sql.caByState tenantID trustDomain .active))
    match r with
    | .ok existing => pure existing
    | .error .notFound => repo (.ensureCA tenantID trustDomain) (ensureTx P tenantID trustDomain)
    | .error e => fail e

/-! ## Bootstrap -/

def bootstrapLeaf (sid : Csr.SPIFFEID) (uri : Url) (pub : PublicKey) (now : Time)
    (ttl : Duration) (serial : Nat) : X509 where
  serial := serial
  commonName := sid.string
  notBefore := now
  notAfter := now + ttl
  dnsNames := []
  uris := [uri.text]
  otherNames := false
  isCA := false
  pub := pub
  issuerDN := ""

/-- `SignLeaf`: a leaf for the caller's key, of which no row is stored. -/
def signLeaf (tenantID : Id) (trustDomain spiffeID : String) (pub : PublicKey) (ttl : Duration) :
    Svc (Blob × Time) := do
  if ttl ≤ 0 then fail .caInput
  else match Csr.parseSPIFFEID P spiffeID with
    | none => fail .caInput
    | some sid =>
      if sid.trustDomain ≠ trustDomain then fail .caInput
      else
        let caRow ← ensureCA P tenantID trustDomain
        let (key, caCert) ← ofExcept (signer P caRow)
        let serial ← randomSerial
        match P.urlParse sid.string with
        | none => fail .caInput
        | some uri =>
          let now ← Svc.now
          let leaf := bootstrapLeaf sid uri pub now ttl serial
          let nonce ← ask Env.nonce fun _ => .sign leaf caCert
          let der ← ofExcept (P.createCertificate nonce leaf caCert pub key)
          pure (der, leaf.notAfter)

/-! ## What the transaction of `EnsureCA` does -/

section Ensure

variable {P : Platform} {t : Id} {td : String} {ca : CA} {e : Env} {ss ss' : Session Database}

/-- What a generated root is like. -/
structure Generated (P : Platform) (t : Id) (td : String) (now : Time) (ca : CA) : Prop where
  tenantID : ca.tenantID = t
  trustDomain : ca.trustDomain = td
  state : ca.state = .active
  notBefore : ca.notBefore = now
  notAfter : ca.notAfter = now + rootValidity
  cert : ∃ uri priv serial nonce der,
    P.createCertificate nonce (rootTemplate td uri priv.pub now serial)
      (rootTemplate td uri priv.pub now serial) priv.pub priv = .ok der ∧
    ca.certPEM = Csr.encodeCertPEM P der

theorem generate_ok (h : generate P t td e ss = (.ok ca, ss')) :
    Generated P t td e.clock ca ∧ ss'.db = ss.db := by
  obtain ⟨id, ss1, hid, h⟩ := Tx.bind_ok.1 h
  obtain ⟨-, rfl⟩ := Tx.draw_ok.1 hid
  obtain ⟨key, ss2, hkey, h⟩ := Tx.bind_ok.1 h
  obtain ⟨-, rfl⟩ := Tx.ask_ok.1 hkey
  obtain ⟨random, ss3, hrandom, h⟩ := Tx.bind_ok.1 h
  obtain ⟨-, rfl⟩ := Tx.ask_ok.1 hrandom
  obtain ⟨⟨priv, serial⟩, ss4, hsecrets, h⟩ := Tx.bind_ok.1 h
  obtain ⟨-, rfl⟩ := Tx.ofExcept_ok.1 hsecrets
  cases huri : P.urlParse ("spiffe://" ++ td) with
  | none =>
    rw [huri] at h
    exact absurd h Tx.fail_ok
  | some uri =>
    rw [huri] at h
    obtain ⟨now, ss5, hnow, h⟩ := Tx.bind_ok.1 h
    obtain ⟨rfl, rfl⟩ := Tx.ask_ok.1 hnow
    obtain ⟨nonce, ss6, hnonce, h⟩ := Tx.bind_ok.1 h
    obtain ⟨-, rfl⟩ := Tx.draw_ok.1 hnonce
    obtain ⟨der, ss7, hder, h⟩ := Tx.bind_ok.1 h
    obtain ⟨hcreate, rfl⟩ := Tx.ofExcept_ok.1 hder
    obtain ⟨keyDER, ss8, hkeyDER, h⟩ := Tx.bind_ok.1 h
    obtain ⟨-, rfl⟩ := Tx.ofExcept_ok.1 hkeyDER
    obtain ⟨nonce', ss9, hnonce', h⟩ := Tx.bind_ok.1 h
    obtain ⟨-, rfl⟩ := Tx.draw_ok.1 hnonce'
    obtain ⟨blob, ss10, hblob, h⟩ := Tx.bind_ok.1 h
    obtain ⟨-, rfl⟩ := Tx.ofExcept_ok.1 hblob
    obtain ⟨rfl, rfl⟩ := Tx.pure_ok.1 h
    exact ⟨⟨rfl, rfl, rfl, rfl, rfl, uri, priv, serial, nonce, der, hcreate, rfl⟩, rfl⟩

theorem insertCA_error {err : Err} (h : Sql.insertCA ca e ss = (.error err, ss')) :
    ss'.aborted = true := by
  change Sql.checked _ _ e ss = _ at h
  unfold Sql.checked Sql.insertRow at h
  split at h
  · refine Tx.stmt_violated (fun db => ?_) h
    split
    · exact .inl ⟨_, rfl⟩
    split
    · exact .inl ⟨_, rfl⟩
    · exact .inr ⟨_, _, rfl⟩
  · exact Tx.stmt_violated (fun db => .inl ⟨_, rfl⟩) h

theorem mem_of_caByState {st : CAState} (h : Sql.caByState t td st e ss = (.ok ca, ss')) :
    ca ∈ ss.db.cas.rows ∧ ca.tenantID = t ∧ ca.trustDomain = td ∧ ca.state = st := by
  obtain ⟨tie, ss1, hask, hq⟩ := Tx.bind_ok.1 h
  obtain ⟨-, rfl⟩ := Tx.ask_ok.1 hask
  obtain ⟨-, hfound, -⟩ := Tx.query_ok.1 hq
  have hmem := List.mem_of_head? (found_eq_ok.1 hfound)
  simpa [and_assoc] using hmem

theorem caByState_aborted (hab : ss.aborted = true) (st : CAState) :
    Sql.caByState t td st e ss ≠ (.ok ca, ss') := by
  intro h
  obtain ⟨tie, ss1, hask, hq⟩ := Tx.bind_ok.1 h
  obtain ⟨-, rfl⟩ := Tx.ask_ok.1 hask
  obtain ⟨hopen, -⟩ := Tx.query_ok.1 hq
  rw [hab] at hopen
  cases hopen

theorem ensureTx_ok (h : ensureTx P t td e ss = (.ok ca, ss')) :
    (Sql.caByState t td .active e ss = (.ok ca, ss') ∧ ss'.db = ss.db) ∨
      Generated P t td e.clock ca ∧ ∃ table,
        ss.db.cas.insert? { ca with createdAt := e.dbNow } = some table ∧
        ss'.db = { ss.db with cas := table } := by
  obtain ⟨r, ss1, hlook, h⟩ := Tx.bind_ok.1 h
  rw [Tx.attempt_ok] at hlook
  have hsame : ss1.db = ss.db := ((Sql.readOnly_caByState t td .active).run hlook).symm
  cases r with
  | ok again =>
    obtain ⟨rfl, rfl⟩ := Tx.pure_ok.1 h
    exact .inl ⟨hlook, hsame⟩
  | error err =>
    by_cases hnone : err = .notFound
    · subst hnone
      obtain ⟨fresh, ss2, hgen, h⟩ := Tx.bind_ok.1 h
      obtain ⟨x, ss3, hins, h⟩ := Tx.bind_ok.1 h
      rw [Tx.attempt_ok] at hins
      obtain ⟨hfresh, hdb⟩ := generate_ok hgen
      cases x with
      | ok _ =>
        obtain ⟨rfl, rfl⟩ := Tx.pure_ok.1 h
        obtain ⟨now, ss4, hask, hins⟩ := Tx.bind_ok.1 hins
        obtain ⟨rfl, rfl⟩ := Tx.ask_ok.1 hask
        obtain ⟨-, -, table, htable, rfl⟩ := Sql.insertRow_ok (Sql.checked_ok hins).2
        rw [hdb, hsame] at htable
        exact .inr ⟨hfresh, table, htable, by rw [hdb, hsame]⟩
      | error err =>
        -- the conflict has aborted the transaction, so the winner is not found
        simp only [wonOr] at h
        split at h
        · exact absurd h (caByState_aborted (insertCA_error hins) .active)
        · exact absurd h Tx.fail_ok
    · simp only [ensureOr] at h
      exact absurd h Tx.fail_ok

end Ensure

theorem mem_of_getCA {t id : Id} {ca : CA} {e : Env}
    (h : (transact (Sql.getCA t id) e s).1 = .ok ca) :
    ca ∈ s.cas.rows ∧ ca.tenantID = t ∧ ca.id = id := by
  obtain ⟨hget, ht⟩ := Option.filter_eq_some_iff.1 (found_eq_ok.1 (transact_query_ok h))
  exact ⟨Table.get?_mem hget, by simpa using ht, Table.get?_key hget⟩

theorem mem_casForDomain {t : Id} {td : String} {cas : List CA} {e : Env}
    (h : (transact (Sql.casForDomain t td) e s).1 = .ok cas) {ca : CA} :
    ca ∈ cas ↔ ca ∈ s.cas.rows ∧ ca.tenantID = t ∧ ca.trustDomain = td := by
  obtain ⟨ss, hm, -⟩ := transact_ok h
  obtain ⟨tie, ss1, hask, hq⟩ := Tx.bind_ok.1 hm
  obtain ⟨-, rfl⟩ := Tx.ask_ok.1 hask
  obtain ⟨-, hcas, -⟩ := Tx.query_ok.1 hq
  cases hcas
  simp

theorem quiet_bundle (t : Id) (td : String) : Quiet (bundle t td) :=
  only_bind (quiet_fetch (Sql.readOnly_casForDomain t td)) fun _ => only_pure _

theorem quiet_randomSerial : Quiet randomSerial := quiet_askExcept _

end Lcm.Ca
