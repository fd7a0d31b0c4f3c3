import Lcm.Conc.Machine
import Lcm.System

/-!
# The identity providers of the SDK

`lcmidentity`: a workload makes a key, has the server sign it and serves the result. `Provider`
enrolls anew over gRPC each time; `NetProvider` enrolls once over HTTP with a join token, then
renews with the identity it has, also after a restart that finds a valid state file.

* `token_spent_once`: who sends the join token again.
* `serves_own_credential`: what the providers take over from the server and from the file
  without a check.
-/

namespace Lcm.Identity

open Conc Machine

/-- The two providers. -/
inductive Kind where
  | provider
  | net
deriving DecidableEq

structure Config where
  trustDomain : String
  serviceName : String
  enrollmentToken : String
  /-- `identity.NewSPIFFEID` takes the two names -/
  named : Bool

def Config.spiffeID (c : Config) : String :=
  "spiffe://" ++ c.trustDomain ++ "/svc/" ++ c.serviceName

/-- `lcmclient.Bundle`, as far as a provider reads it. -/
structure Signed where
  certPEM : String
  chainPEM : String
  bundlePEM : String
deriving DecidableEq

structure State where
  certificates : List Blob
  leaf : X509
  key : PrivateKey
  roots : List X509
deriving DecidableEq

inductive BuildError where
  | noCertificate
  | leaf (e : Err)
  | trustBundle
  | name
  /-- the certificate is not for this workload -/
  | notFor (spiffeID : String)
deriving DecidableEq

/-- `persistedSVID`. -/
structure Persisted where
  signed : Signed
  keyPEM : String
deriving DecidableEq

section Model

variable (P : Platform)

/-- The loop of `decodeCerts`. Each round consumes a block, so `fuel` beyond the length of the
text is never used up. -/
def decodeBlocks : Nat → String → List Blob
  | 0, _ => []
  | fuel + 1, data =>
    match P.pemDecode data with
    | none => []
    | some (b, rest) =>
      if b.type = "CERTIFICATE" then b.bytes :: decodeBlocks fuel rest else decodeBlocks fuel rest

def decodeCerts (pem : String) : List Blob := decodeBlocks P (pem.utf8ByteSize + 1) pem

def decodeCertsParsed (pem : String) : Except Err (List X509) :=
  (decodeCerts P pem).mapM P.parseCertificate

def buildState (cfg : Config) (b : Signed) (key : PrivateKey) : Except BuildError State :=
  match decodeCerts P b.certPEM with
  | [] => .error .noCertificate
  | der :: ders =>
    match P.parseCertificate der with
    | .error e => .error (.leaf e)
    | .ok leaf =>
      match decodeCertsParsed P b.bundlePEM with
      | .error _ | .ok [] => .error .trustBundle
      | .ok (root :: roots) =>
        if cfg.named then
          .ok ⟨der :: ders ++ decodeCerts P b.chainPEM, leaf, key, root :: roots⟩
        else .error .name

/-- `buildStateFrom`: the same, and the leaf must name this workload. -/
def buildStateFrom (cfg : Config) (b : Signed) (key : PrivateKey) : Except BuildError State := do
  let st ← buildState P cfg b key
  if st.leaf.uris ≠ [cfg.spiffeID] then .error (.notFor cfg.spiffeID) else .ok st

def parseECKey (pem : String) : Option PrivateKey :=
  match P.pemDecode pem with
  | none => none
  | some (blk, _) =>
    match P.parsePKCS8 blk.bytes with
    | some ⟨.ecdsa bits n⟩ => some ⟨.ecdsa bits n⟩
    | _ => none

/-- `loadPersisted`: the state in the file, unless it is about to expire. -/
def loadPersisted (cfg : Config) (now : Time) (file : Option Persisted) : Option State :=
  match file with
  | none => none
  | some f =>
    match parseECKey P f.keyPEM with
    | none => none
    | some key =>
      match buildStateFrom P cfg f.signed key with
      | .error _ => none
      | .ok st => if st.leaf.notAfter - now < 60 * second then none else some st

/-- The state a provider builds from an answer. -/
def Kind.build : Kind → Config → Signed → PrivateKey → Except BuildError State
  | .provider => buildState P
  | .net => buildStateFrom P

/-- A request of a provider: the token it carries, and whether its answer was installed. -/
structure Request where
  token : String
  installed : Bool
deriving DecidableEq

/-- A provider, with the requests it has sent. -/
structure Provider where
  st : Option State
  firstDone : Bool
  sent : List Request
deriving DecidableEq

/-- Before the first start. -/
def fresh : Provider := ⟨none, false, []⟩

/-- One call of `enroll` or `mint`: the key, the CSR and the answer, where there are such. -/
structure Attempt where
  key : Option PrivateKey
  csr : Option String
  answer : Option Signed

inductive Act where
  /-- the process starts and reads the state file -/
  | start (now : Time) (file : Option Persisted)
  /-- a first enrollment, a retry, a renewal by the timer or by a poke -/
  | attempt (a : Attempt)

/-- The token of the next request. -/
def Provider.token (p : Provider) : Kind → Config → String
  | .provider, cfg => cfg.enrollmentToken
  | .net, cfg => if p.firstDone then "" else cfg.enrollmentToken

/-- `New`, which reads no file, and `NewNet`. -/
def Provider.start (kind : Kind) (cfg : Config) (p : Provider) (now : Time)
    (file : Option Persisted) : Provider :=
  match kind, loadPersisted P cfg now file with
  | .net, some st => { p with st := some st, firstDone := true }
  | _, _ => { p with st := none, firstDone := false }

/-- `enroll` and `mint`, and what their callers do. A provider goes on with the state it has when
an attempt fails. -/
def Provider.attempt (kind : Kind) (cfg : Config) (p : Provider) (a : Attempt) : Provider :=
  match a.key, a.csr with
  | some key, some _ =>
    match a.answer.bind fun b => (kind.build P cfg b key).toOption with
    | some st =>
      { st := some st, firstDone := true, sent := p.sent ++ [⟨p.token kind cfg, true⟩] }
    | none => { p with sent := p.sent ++ [⟨p.token kind cfg, false⟩] }
  | _, _ => p

def step (kind : Kind) (cfg : Config) (p : Provider) : Act → Provider
  | .start now file => p.start P kind cfg now file
  | .attempt a => p.attempt P kind cfg a

end Model

variable {P : Platform} {kind : Kind} {cfg : Config}

/-! ## The join token -/

def Request.Spends (r : Request) : Prop := r.token ≠ "" ∧ r.installed = true

/-- A token enrollment has been installed. -/
def Provider.Spent (p : Provider) : Prop := ∃ r ∈ p.sent, r.Spends

/-- No request after the one that has spent the token carries it. -/
def SpentOnce (p : Provider) : Prop := p.sent.Pairwise fun r r' => r.Spends → r'.token = ""

/-- Once the token is spent only a `NetProvider` restarts, and it finds a valid state file. -/
def Restarts (P : Platform) (kind : Kind) (cfg : Config) (p : Provider) : Act → Prop
  | .start now file => p.Spent → kind = .net ∧ (loadPersisted P cfg now file).isSome
  | .attempt _ => True

/-- A `Provider` makes no attempt once it has spent a token. -/
def Thrifty (kind : Kind) (p : Provider) : Act → Prop
  | .start _ _ => True
  | .attempt _ => kind = .provider → ¬p.Spent

/-- What holds in every state: the token is spent once, and a `NetProvider` knows. -/
structure Spending (kind : Kind) (p : Provider) : Prop where
  once : SpentOnce p
  known : kind = .net → p.Spent → p.firstDone = true

variable {p : Provider} {b : Signed} {key : PrivateKey} {st : State}

theorem Spending.push (h : Spending kind p) (hthrift : kind = .provider → ¬p.Spent)
    (installed : Bool) :
    SpentOnce { p with sent := p.sent ++ [⟨p.token kind cfg, installed⟩] } := by
  refine List.pairwise_append.2 ⟨h.once, List.pairwise_singleton _ _, ?_⟩
  intro r hr r' hr' hspends
  rw [List.mem_singleton.1 hr']
  cases kind with
  | provider => exact absurd ⟨r, hr, hspends⟩ (hthrift rfl)
  | net => exact if_pos (h.known rfl ⟨r, hr, hspends⟩)

theorem Spending.step (h : Spending kind p) {a : Act} (hrestarts : Restarts P kind cfg p a)
    (hthrift : Thrifty kind p a) : Spending kind (step P kind cfg p a) := by
  cases a with
  | start now file =>
    show Spending kind (p.start P kind cfg now file)
    unfold Provider.start
    split
    · exact ⟨h.once, fun _ _ => rfl⟩
    rename_i hnot
    refine ⟨h.once, fun _ hspent => ?_⟩
    obtain ⟨rfl, hsome⟩ := hrestarts hspent
    obtain ⟨st, hst⟩ := Option.isSome_iff_exists.1 hsome
    exact absurd hst (hnot st rfl)
  | attempt a =>
    show Spending kind (p.attempt P kind cfg a)
    unfold Provider.attempt
    split
    · split
      · exact ⟨h.push hthrift true, fun _ _ => rfl⟩
      refine ⟨h.push hthrift false, ?_⟩
      rintro hkind ⟨r, hr, hspends⟩
      rcases List.mem_append.1 hr with hr | hr
      · exact h.known hkind ⟨r, hr, hspends⟩
      · -- the attempt has failed
        rw [List.mem_singleton.1 hr] at hspends
        cases hspends.2
    · exact h

/-- In every run, restarts with a valid state file included, a `NetProvider` sends the token no
more once an enrollment with it is installed, and so does a `Provider` that makes no attempt
after it. -/
theorem token_spent_once {acts : List Act}
    (h : Meets (step P kind cfg)
      (fun p a => Restarts P kind cfg p a ∧ Thrifty kind p a) fresh acts) :
    SpentOnce (run (step P kind cfg) fresh acts) := by
  have hinv : Spending kind (run (step P kind cfg) fresh acts) := by
    refine run_inv (fun p a hcond hp => hp.step hcond.1 hcond.2) ?_ h
    refine ⟨.nil, ?_⟩
    rintro - ⟨r, hr, -⟩
    cases hr
  exact hinv.once

/-! ## The credential -/

/-- The state is the workload's own: the leaf names it and nothing else, for the key served. -/
def State.Own (cfg : Config) (st : State) : Prop :=
  st.leaf.uris = [cfg.spiffeID] ∧ st.leaf.pub = st.key.pub

/-- The certificate that is served of an answer. -/
def leafOf (P : Platform) (pem : String) : Option X509 :=
  (decodeCerts P pem).head?.bind fun der => (P.parseCertificate der).toOption

def ForKey (P : Platform) (b : Signed) (key : PrivateKey) : Prop :=
  ∀ leaf, leafOf P b.certPEM = some leaf → leaf.pub = key.pub

/-- What is built is from an honest source: the certificate in the answer or in the file is for
the key, and an answer to a `Provider` is for its SPIFFE ID alone. -/
def Honest (P : Platform) (kind : Kind) (cfg : Config) : Act → Prop
  | .start _ file => ∀ f key, file = some f → parseECKey P f.keyPEM = some key →
      ForKey P f.signed key
  | .attempt a => ∀ key b, a.key = some key → a.answer = some b → ForKey P b key ∧
      (kind = .provider → ∀ leaf, leafOf P b.certPEM = some leaf → leaf.uris = [cfg.spiffeID])

theorem buildState_ok (h : buildState P cfg b key = .ok st) :
    leafOf P b.certPEM = some st.leaf ∧ st.key = key := by
  unfold buildState at h
  unfold leafOf
  split at h
  · cases h
  rename_i der ders hders
  split at h
  · cases h
  rename_i leaf hleaf
  split at h
  · cases h
  · cases h
  split at h
  · cases h
    exact ⟨by simp [hders, hleaf, Except.toOption], rfl⟩
  · cases h

theorem buildStateFrom_ok (h : buildStateFrom P cfg b key = .ok st) :
    buildState P cfg b key = .ok st ∧ st.leaf.uris = [cfg.spiffeID] := by
  unfold buildStateFrom at h
  cases hb : buildState P cfg b key with
  | error e =>
    rw [hb] at h
    cases h
  | ok st' =>
    rw [hb] at h
    by_cases huri : st'.leaf.uris = [cfg.spiffeID]
    · obtain rfl : st' = st := by simpa [bind, Except.bind, huri] using h
      exact ⟨rfl, huri⟩
    · simp [bind, Except.bind, huri] at h

theorem own_of_buildStateFrom (hkey : ForKey P b key) (h : buildStateFrom P cfg b key = .ok st) :
    st.Own cfg := by
  obtain ⟨hb, huri⟩ := buildStateFrom_ok h
  obtain ⟨hleaf, rfl⟩ := buildState_ok hb
  exact ⟨huri, hkey _ hleaf⟩

theorem own_of_loadPersisted {now : Time} {file : Option Persisted}
    (hfile : ∀ f key, file = some f → parseECKey P f.keyPEM = some key → ForKey P f.signed key)
    (h : loadPersisted P cfg now file = some st) : st.Own cfg := by
  unfold loadPersisted at h
  split at h
  · cases h
  rename_i f
  split at h
  · cases h
  rename_i key hkey
  split at h
  · cases h
  rename_i st' hst
  split at h
  · cases h
  · obtain rfl := Option.some.inj h
    exact own_of_buildStateFrom (hfile f key rfl hkey) hst

theorem own_step {a : Act} (ha : Honest P kind cfg a) (hp : ∀ st, p.st = some st → st.Own cfg) :
    ∀ st, (step P kind cfg p a).st = some st → st.Own cfg := by
  cases a with
  | start now file =>
    show ∀ st, (p.start P kind cfg now file).st = some st → st.Own cfg
    unfold Provider.start
    split
    · next st hst =>
      rintro _ ⟨⟩
      exact own_of_loadPersisted ha hst
    · nofun
  | attempt a =>
    show ∀ st, (p.attempt P kind cfg a).st = some st → st.Own cfg
    unfold Provider.attempt
    split
    · next key csr hkey hcsr =>
      split
      · next st hst =>
        rintro _ ⟨⟩
        obtain ⟨b, hb, hbuild⟩ := Option.bind_eq_some_iff.1 hst
        have hok : kind.build P cfg b key = .ok st := by
          cases hr : kind.build P cfg b key with
          | error e => simp [hr, Except.toOption] at hbuild
          | ok st' =>
            rw [hr] at hbuild
            rw [Option.some.inj hbuild]
        obtain ⟨hfor, huri⟩ := ha key b hkey hb
        cases kind with
        | provider =>
          obtain ⟨hleaf, rfl⟩ := buildState_ok hok
          exact ⟨huri rfl _ hleaf, hfor _ hleaf⟩
        | net => exact own_of_buildStateFrom hfor hok
      · exact hp
    · exact hp

end Lcm.Identity

namespace Lcm.Sample

open Identity

/-- Certificates for the workload `web`, with the first byte as the key. -/
def webPlatform : Platform :=
  { platform with
    parseCertificate := fun b =>
      .ok { rootCert with uris := ["spiffe://td/svc/web"], pub := .ecdsa 256 (b.headD 0).toNat } }

def web : Identity.Config := ⟨"td", "web", "T", true⟩

/-- A certificate for the key 65, to a workload that has made the key `n`. -/
def webAttempt (n : Nat) : Act := .attempt ⟨some ⟨.ecdsa 256 n⟩, some "", some ⟨"A", "", "R"⟩⟩

end Lcm.Sample

namespace Lcm.Identity

open Conc Lcm.Sample

theorem token_spent_once_net :
    SpentOnce (Machine.run (step webPlatform .net web) fresh [webAttempt 65, webAttempt 65]) :=
  token_spent_once ⟨⟨trivial, nofun⟩, ⟨trivial, nofun⟩, trivial⟩

/-- A `Provider` sends the token with its renewal. -/
theorem token_sent_again : ¬SpentOnce
    (Machine.run (step webPlatform .provider web) fresh [webAttempt 65, webAttempt 65]) := by
  intro h
  have hsent : (Machine.run (step webPlatform .provider web) fresh
      [webAttempt 65, webAttempt 65]).sent = [⟨"T", true⟩, ⟨"T", true⟩] := by decide
  rw [SpentOnce, hsent] at h
  exact absurd (List.rel_of_pairwise_cons h List.mem_cons_self ⟨by decide, rfl⟩) (by decide)

end Lcm.Identity
