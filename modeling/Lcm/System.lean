import Lcm.Issue.Import
import Lcm.Issue.Issuers
import Lcm.Enrollment
import Lcm.Renew
import Lcm.Transfer.Backup

/-!
# The system

All entry points as programs over one database. A run is a schedule of the thread pool:
calls arrive, and the threads' repository calls interleave in any order.
-/

namespace Lcm

open Conc Svc

variable (P : Platform) {cfg : SysConfig} {xs : List Turn} {s : Database}

/-- The program of a call. -/
def body : Call → Svc Value
  | .issue subj input => do return .bundle (← Issue.issue P subj input)
  | .obtainACMEFor subj requestID issuerID domains csrPEM deliverKey autoRenew => do
    return .bundle
      (← Issue.obtainACMEFor P subj requestID issuerID domains csrPEM deliverKey autoRenew)
  | .finishACME subj requestID certificateID orderErr => do
    Issue.finishACME subj requestID certificateID orderErr
    return .unit
  | .importACME subj input => do return .certificate (← Issue.importACME P subj input)
  | .renew subj certID => do return .bundle (← Issue.renew P subj certID)
  | .renewSystem tenantID certID => do return .bundle (← Issue.renewSystem P tenantID certID)
  | .revoke subj certID reason => do
    Issue.revoke subj certID reason
    return .unit
  | .updateCertificate subj id input => do
    return .certificate (← Issue.updateCertificate subj id input)
  | .deleteCertificate subj id => do
    Issue.deleteCertificate subj id
    return .unit
  | .markKeyDelivered subj certID => do
    Issue.markKeyDelivered subj certID
    return .unit
  | .getCertificate subj id => do return .certificate (← Issue.getCertificate subj id)
  | .download subj certID => do return .bundle (← Issue.download P subj certID)
  | .downloadKey subj certID => do return .key (← Issue.downloadKey P subj certID)
  | .downloadForService tenantID caller certID includeKey => do
    return .bundle (← Issue.downloadForService P tenantID caller certID includeKey)
  | .approveRequest subj id reason => do
    return .request (← Enroll.approveRequest P subj id reason)
  | .rejectRequest subj id reason => do
    return .request (← Enroll.rejectRequest P subj id reason)
  | .cancelJob subj id => do return .job (← Enroll.cancelJob P subj id)
  | .retryJob subj id => do return .job (← Enroll.retryJob P subj id)
  | .claimDueJobs now lease limit => do
    return .jobs (← repo .claimDueJobs (Sql.claimDueJobs now lease limit))
  | .processJob job => do
    Enroll.processJob P job
    return .unit
  | .once => do return .count (← Enroll.once P)
  | .runOnce => do
    Renew.runOnce P
    return .unit
  | .renewOne cert => do return .renewed (← Renew.renewOne P cert)
  | .exportBackup subj includeCredentials => do
    return .document (← Transfer.exportBackup P subj includeCredentials)
  | .importBackup subj doc mode => do return .report (← Transfer.importBackup P subj doc mode)
  | .createIssuer subj input => do return .issuer (← Issue.createIssuer P subj input)
  | .updateIssuer subj id input => do return .issuer (← Issue.updateIssuer P subj id input)
  | .deleteIssuer subj id => do
    Issue.deleteIssuer subj id
    return .unit
  | .ensureCA tenantID trustDomain => do return .ca (← Ca.ensureCA P tenantID trustDomain)
  | .signLeaf tenantID trustDomain spiffeID pub ttl => do
    let (der, notAfter) ← Ca.signLeaf P tenantID trustDomain spiffeID pub ttl
    return .leaf der notAfter
  | .enroll autoApprove verdict subj input => do
    let _ ← Enroll.enroll P (fun _ _ => verdict) autoApprove subj input
    return .enrolled

abbrev SysThread := Thread Env Database Ev Call (Except Err Value)

/-- The states of the system. -/
abbrev SysConfig := Config Env Database Ev Call (Except Err Value)

abbrev SysAct := Act Env Call

/-- A whole schedule, from a database with no call under way. -/
def runFrom (db : Database) (as : List SysAct) : SysConfig :=
  (Config.init db).exec (fun c => (body P c).run) as

/-- Every act of the schedule meets the condition. -/
def AllMeet (cond : SysConfig → SysAct → Prop) (db : Database) (as : List SysAct) : Prop :=
  (Config.init db).Meets (fun c => (body P c).run) cond as

instance (cond : SysConfig → SysAct → Prop) [∀ cfg a, Decidable (cond cfg a)] (db : Database)
    (as : List SysAct) : Decidable (AllMeet P cond db as) :=
  Config.decidableMeets _ cond (Config.init db) as

/-- The thread has returned without an error, with the value `v`. -/
def Returned (t : SysThread) (v : Value) : Prop := t.prog.result? = some (.ok v)

/-- The call of thread `i` and the value it has returned. -/
def outcome? (cfg : SysConfig) (i : Nat) : Option (Call × Value) :=
  cfg.threads[i]?.bind fun t =>
    match t.prog.result? with
    | some (.ok v) => some (t.call, v)
    | _ => none

theorem thread_of_outcome? {i : Nat} {c : Call} {v : Value} (h : outcome? cfg i = some (c, v)) :
    ∃ t, cfg.threads[i]? = some t ∧ t.call = c ∧ Returned t v := by
  obtain ⟨t, ht, h⟩ := Option.bind_eq_some_iff.1 h
  refine ⟨t, ht, ?_⟩
  split at h
  · next w hw =>
    cases h
    exact ⟨rfl, hw⟩
  · cases h

theorem returned_of_outcome? {i : Nat} {c : Call} {v : Value} (h : outcome? cfg i = some (c, v)) :
    ∃ t ∈ cfg.threads, t.call = c ∧ Returned t v := by
  obtain ⟨t, ht, hcall, hret⟩ := thread_of_outcome? h
  exact ⟨t, List.mem_of_getElem? ht, hcall, hret⟩

/-! ## Calls one after the other -/

/-- A call that runs alone, with the choices of the world: its `n`-th step takes `env n`. -/
structure Turn where
  call : Call
  env : Nat → Env

/-- The database after the call. -/
def serve (s : Database) (x : Turn) : Database := ((body P x.call).run.exec x.env 0 s []).1

def events (s : Database) (x : Turn) : List Ev := ((body P x.call).run.exec x.env 0 s []).2.1

/-- What the call returns. -/
def answer (s : Database) (x : Turn) : Except Err Value :=
  ((body P x.call).run.exec x.env 0 s []).2.2

/-- The database after all the calls. -/
def serveAll (s : Database) (xs : List Turn) : Database := xs.foldl (serve P) s

/-- Every call meets the condition in the database it begins in. -/
def EachMeets (cond : Database → Turn → Prop) : Database → List Turn → Prop
  | _, [] => True
  | s, x :: xs => cond s x ∧ EachMeets cond (serve P s x) xs

instance decidableEachMeets (cond : Database → Turn → Prop) [∀ s x, Decidable (cond s x)] :
    (s : Database) → (xs : List Turn) → Decidable (EachMeets P cond s xs)
  | _, [] => .isTrue trivial
  | s, x :: xs => @instDecidableAnd _ _ _ (decidableEachMeets cond (serve P s x) xs)

variable {P} in
theorem EachMeets.and {cond cond' : Database → Turn → Prop} (h : EachMeets P cond s xs)
    (h' : EachMeets P cond' s xs) : EachMeets P (fun s x => cond s x ∧ cond' s x) s xs := by
  induction xs generalizing s with
  | nil => trivial
  | cons x xs ih => exact ⟨⟨h.1, h'.1⟩, ih h.2 h'.2⟩

theorem serveAll_inv {cond : Database → Turn → Prop} {I : Database → Prop}
    (hcall : ∀ s, ∀ x ∈ xs, cond s x → I s → I (serve P s x)) (hI : I s)
    (hcond : EachMeets P cond s xs) : I (serveAll P s xs) := by
  induction xs generalizing s with
  | nil => exact hI
  | cons x xs ih =>
    have hI' : I (serve P s x) := hcall s x List.mem_cons_self hcond.1 hI
    exact ih (fun s y hy => hcall s y (List.mem_cons_of_mem x hy)) hI' hcond.2

/-! ## A sample deployment

A platform whose library functions are simple enough to compute with, one tenant with a CA,
an issuer and a certificate, and an administrator. The runs that show what can go wrong start
from here. -/

namespace Sample

/-- Text as bytes; the sample texts are ASCII. -/
def bytes (s : String) : Blob := s.toList.map fun c => c.toNat.toUInt8

def text (b : Blob) : String := String.ofList (b.map fun x => Char.ofNat x.toNat)

theorem bytes_text (b : Blob) : bytes (text b) = b := by
  have hbyte : ∀ x : UInt8, (Char.ofNat x.toNat).toNat.toUInt8 = x := by
    intro x
    have hlt : x.toNat < 256 := x.toNat_lt
    have hvalid : x.toNat.isValidChar := .inl (by omega)
    rw [Char.ofNat, dif_pos hvalid]
    exact UInt8.ofNat_toNat
  unfold bytes text
  rw [String.toList_ofList, List.map_map]
  conv_rhs => rw [← List.map_id b]
  exact List.map_congr_left fun x _ => hbyte x

/-- `spiffe://host/path`, and nothing else. -/
def urlParse (s : String) : Option Url :=
  if "spiffe://".toList.isPrefixOf s.toList then
    let rest := s.toList.drop 9
    some ⟨"spiffe", "", false, String.ofList (rest.takeWhile (· != '/')), "",
      String.ofList (rest.dropWhile (· != '/')), "", false, "", "", s⟩
  else none

/-- The sealed text starts with its associated data. -/
def envOpen (b : Blob) (ad : String) : Option String :=
  if (bytes ad).isPrefixOf b then some (text (b.drop (bytes ad).length)) else none

/-- A number in ones, behind its sign. -/
def unary : Int → String
  | .ofNat n => String.ofList ('+' :: List.replicate n '1')
  | .negSucc n => String.ofList ('-' :: List.replicate n '1')

def ofUnary (s : String) : Option Int :=
  match s.toList with
  | '+' :: ones => some ones.length
  | '-' :: ones => some (.negSucc ones.length)
  | _ => none

def rootCert : X509 := ⟨1, "root", 0, 0, [], [], false, true, .ecdsa 256 0, ""⟩

/-- The number in the field that is asked for. -/
def sortNumber (r : Db.PageRequest) (row : Db.SortRow) : Int :=
  match row.key r.sort with
  | .number n => n
  | _ => 0

/-- Pages that go by the numbers of a field, the greatest first. -/
def listQuery : Db.ListQuery where
  new := fun r spec =>
    let sort := if r.sort = "" then spec.default else r.sort
    let size := if r.pageSize ≤ 0 then 25 else r.pageSize
    (⟨r.page, size, sort, r.order⟩, (spec.fields.lookup sort).isSome)
  clamp := fun r _ => r
  before := fun r _ => Db.NewestFirst (sortNumber r) Db.SortRow.id
  limit := fun r => r.pageSize.toNat
  offset := fun r => ((r.page - 1) * r.pageSize).toNat

theorem listQuery_lawful : listQuery.Lawful where
  sortable _ _ := Db.sortable_newestFirst _ _
  tie r _ _ _ hab hba := Db.id_eq_of_not_newer (sortNumber r) _ hab hba
  valid spec h := h
  covers r spec hr n i hi := by
    obtain ⟨size, hsize, hpos⟩ :
        ∃ size : Nat, (listQuery.new r spec).1.pageSize = size ∧ 0 < size := by
      show ∃ size : Nat, (if r.pageSize ≤ 0 then 25 else r.pageSize) = (size : Int) ∧ 0 < size
      split_ifs with hle
      · exact ⟨25, rfl, by decide⟩
      · exact ⟨r.pageSize.toNat, by omega, by omega⟩
    -- the page of place `i` has the `i / size` pages before it
    refine ⟨i / size + 1, Nat.succ_pos _, ?_⟩
    have hvalid : listQuery.listRequest { r with page := (i / size + 1 : Nat) } spec =
        { (listQuery.new r spec).1 with page := (i / size + 1 : Nat) } := if_pos hr
    show listQuery.before (listQuery.listRequest _ spec) spec = _ ∧ _
    rw [hvalid]
    refine ⟨rfl, ?_⟩
    show (((i / size + 1 : Nat) - 1 : Int) * (listQuery.new r spec).1.pageSize).toNat ≤ i ∧
      i < (((i / size + 1 : Nat) - 1 : Int) * (listQuery.new r spec).1.pageSize).toNat +
        (listQuery.new r spec).1.pageSize.toNat
    have hoffset : (((i / size + 1 : Nat) - 1 : Int) * size).toNat = i / size * size := by
      rw [Nat.cast_succ, add_sub_cancel_right, ← Nat.cast_mul, Int.toNat_natCast]
    rw [hsize, hoffset, Int.toNat_natCast]
    exact ⟨Nat.div_mul_le_self i size, Nat.lt_div_mul_add hpos⟩

def platform : Platform where
  urlParse := urlParse
  toLower := id
  trimSpace := id
  pemDecode := fun s => if s = "" then none else some (⟨"CERTIFICATE", bytes s⟩, "")
  pemEncode := fun b => text b.bytes
  parseCertificateRequest := fun _ => none
  createCertificateRequest := fun _ _ _ _ => .ok []
  parsePKCS8 := fun b => some ⟨.ecdsa 256 (b.headD 0).toNat⟩
  parseEC := fun _ => none
  marshalPKCS8 := fun k => match k.pub with
    | .ecdsa _ n => .ok [n.toUInt8]
    | _ => .error (.external "x509: unknown key type")
  parseCertificate := fun b => .ok { rootCert with serial := (b.headD 0).toNat, notAfter := 900 }
  createCertificate := fun _ leaf _ _ _ => .ok [leaf.serial.toUInt8]
  signRevocationList := fun _ l _ _ => .ok [l.entries.length.toUInt8]
  sha256 := text
  envSeal := fun _ p ad => .ok (bytes ad ++ bytes p)
  envOpen := envOpen
  decodeSettings := fun s => .ok ⟨[("acme_account_key", .str s)]⟩
  marshalSettings := fun s => .ok (s.str "acme_account_key")
  dnsProviderOK := fun _ _ _ => true
  decodeEABKey := fun s => some (bytes s)
  isLoopbackDirectory := fun _ => true
  sqlLower := id
  sqlLess := fun a b => decide (a.toList < b.toList)
  listQuery := listQuery
  formatTime := unary
  parseTime := ofUnary
  uuidText := fun id => unary id
  parseUUID := fun s => (ofUnary s).map Int.toNat
  maxAttempts := 5
  jobLease := 60 * second
  jobBatch := 50
  shortLivedFraction := 1 / 2
  longLivedWindow := 30 * 24 * 3600 * second

/-- The world at a quiet moment: nothing fails. `id` is the next id to be drawn. -/
def env (id : Id) : Env where
  clock := 100
  dbNow := 100
  newID := fun n => id + n
  fault := .ok
  key := some ⟨.ecdsa 256 (65 + id)⟩
  random := some id
  nonce := 0
  tie := fun _ => 0
  cancelled := false
  register := .ok ()
  order := .ok (text [id.toUInt8])

def admin : Subjects := ⟨1, "ann", ["admin"], ""⟩

def caRow : CA :=
  ⟨2, 1, "td", "R", bytes (Ca.adCA 2) ++ bytes "K", .active, 0, 1000, "1", 0⟩

def issuerRow : Issuer :=
  ⟨3, 1, "main", .selfSigned, "td", true, some 2, "", "", "", "", [], true, none, none⟩

/-- An active SVID of tenant 1. -/
def certRow : IssuedCertificate :=
  ⟨4, 1, 3, some .svid, none, "7", "spiffe://td/a", "spiffe://td/a", [], 0, 900, "", .active,
    "C", "R", [], true, true, none, "ann", some "ann", some "ann", 0⟩

def database : Database where
  issuers := ⟨[issuerRow], by decide⟩
  cas := ⟨[caRow], by decide⟩
  requests := .empty
  jobs := .empty
  certificates := ⟨[certRow], by decide⟩
  revocations := .empty
  grants := .empty
  secrets := .empty
  certLog := []

/-- A pending request of tenant 1. -/
def requestRow : CertificateRequest :=
  ⟨5, 1, some 3, some .svid, "spiffe://td/b", [], none, 3600, "bob", .user, .pending, none, none,
    none, 0⟩

/-- The deployment with the pending request. -/
def withRequest : Database := { database with requests := ⟨[requestRow], by decide⟩ }

/-- A request for a key that is to be delivered and not retained. -/
def keyInput : IssueInput := ⟨none, "spiffe://td/b", "", "b", [], 3600, true, false⟩

/-- `n` steps of thread `i` in a quiet world. -/
def steps (i n : Nat) (id : Id) : List SysAct := List.replicate n (.run i (env id))

end Sample

end Lcm
