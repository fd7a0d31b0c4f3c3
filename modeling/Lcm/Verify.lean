import Lcm.System

/-!
# Verifying a certificate

`SVIDServer.Verify` of `servers.go` looks at the newest fifty certificates of the tenant, or of
the tenant and a SPIFFE id, for the one with the serial it is asked for.

* `verify_exact_iff`: the answer is right just when the certificate, unless it has expired, is
  one of them.
* `verify_misses`: the fifty-first is reported as missing.
-/

namespace Lcm.Verify

open Conc Db Svc List

/-! ## Requests and answers -/

/-- `VerifyRequest`; the tenant is `none` when the field does not hold a UUID. -/
structure VerifyRequest where
  tenantID : Option Id
  spiffeID : String
  serial : String
deriving DecidableEq

inductive VerifyReason where
  | ok
  | revoked
  | noCertificate
deriving DecidableEq

def VerifyReason.text : VerifyReason → String
  | ok => "ok"
  | revoked => "revoked"
  | noCertificate => "no_certificate"

structure VerifyResponse where
  valid : Bool
  reason : VerifyReason
deriving DecidableEq

/-- The errors `caller` returns. -/
inductive CallerError where
  /-- `codes.Unauthenticated`: "service identity required" -/
  | unauthenticated
  /-- `codes.InvalidArgument`: "tenant_id must be a uuid" -/
  | invalidArgument
deriving DecidableEq

/-- `caller`: the subjects of a service that presents an identity, for a tenant. -/
def caller (peer : Option String) (tenantID : Option Id) : Except CallerError Subjects :=
  match peer, tenantID with
  | none, _ => .error .unauthenticated
  | some _, none => .error .invalidArgument
  | some id, some t => .ok (Authz.serviceSubjects t id)

/-! ## The answer -/

/-- The read-time status of a certificate. -/
inductive DerivedStatus where
  | revoked
  | expired
  | active
deriving DecidableEq

def derived (c : IssuedCertificate) (now : Time) : DerivedStatus :=
  if c.status = .revoked then .revoked
  else if now > c.notAfter then .expired
  else .active

/-- The loop of `Verify`. -/
def answer (serial : String) (now : Time) : List IssuedCertificate → VerifyResponse
  | [] => ⟨false, .noCertificate⟩
  | c :: certs =>
    if serial ≠ "" ∧ c.serial ≠ serial then answer serial now certs
    else match derived c now with
      | .revoked => ⟨false, .revoked⟩
      | .expired => answer serial now certs
      | .active => ⟨true, .ok⟩

def candidates : Nat := 50

def candidateFilter (spiffeID : String) : CertificateFilter :=
  ⟨none, spiffeID, none, 0, none, candidates⟩

/-- `SVIDServer.Verify`, with the repository in place. -/
def verify (peer : Option String) (req : VerifyRequest) :
    Svc (Except CallerError VerifyResponse) :=
  match caller peer req.tenantID with
  | .error e => pure (.error e)
  | .ok subj => do
    let certs ← fetch (Sql.listCertificates subj.tenantID (candidateFilter req.spiffeID))
    let now ← Svc.now
    pure (.ok (answer req.serial now certs))

/-! ## What the answer should be -/

/-- The certificate is the one the request asks for. -/
def Named (t : Id) (spiffeID serial : String) (c : IssuedCertificate) : Prop :=
  c.tenantID = t ∧ c.serial = serial ∧ (spiffeID = "" ∨ c.spiffeID = spiffeID)

instance (t : Id) (spiffeID serial : String) (c : IssuedCertificate) :
    Decidable (Named t spiffeID serial c) := inferInstanceAs (Decidable (_ ∧ _))

/-- The answer is valid just when the certificate is stored and neither revoked nor expired, and
names the revocation of a revoked one. -/
structure Exact (s : Database) (t : Id) (spiffeID serial : String) (now : Time)
    (resp : VerifyResponse) : Prop where
  valid : resp.valid = true ↔ ∃ c ∈ s.certificates.rows, Named t spiffeID serial c ∧
    c.status ≠ .revoked ∧ now ≤ c.notAfter
  revoked : (∃ c ∈ s.certificates.rows, Named t spiffeID serial c ∧ c.status = .revoked) →
    resp.reason = .revoked

/-- The tenant's certificates, or those for a SPIFFE id, that are newer. -/
def newer (s : Database) (t : Id) (spiffeID : String) (c : IssuedCertificate) :
    List IssuedCertificate :=
  s.certificates.rows.filter fun o =>
    o.tenantID == t && (spiffeID == "" || o.spiffeID == spiffeID) && Sql.NewerCertificate o c

/-- The certificate that is asked for has expired, or fewer than fifty are newer. -/
def AmongNewest (s : Database) (t : Id) (spiffeID serial : String) (now : Time) : Prop :=
  ∀ c ∈ s.certificates.rows, Named t spiffeID serial c → c.status = .revoked ∨ now ≤ c.notAfter →
    (newer s t spiffeID c).length < candidates

instance (s : Database) (t : Id) (spiffeID serial : String) (now : Time) :
    Decidable (AmongNewest s t spiffeID serial now) := inferInstanceAs (Decidable (∀ _ ∈ _, _))

/-- A tenant has one certificate with a serial: the index `certs_tenant_serial`. -/
def UniqueSerials (s : Database) : Prop :=
  ∀ c ∈ s.certificates.rows, ∀ o ∈ s.certificates.rows, c.tenantID = o.tenantID →
    c.serial = o.serial → c = o

/-! ## The loop -/

section Loop

variable {serial : String} {now : Time} {certs : List IssuedCertificate} {c : IssuedCertificate}

theorem answer_of_missing (hserial : serial ≠ "") (h : ∀ o ∈ certs, o.serial ≠ serial) :
    answer serial now certs = ⟨false, .noCertificate⟩ := by
  induction certs with
  | nil => rfl
  | cons o certs ih =>
    rw [answer, if_pos ⟨hserial, h o mem_cons_self⟩]
    exact ih fun o' ho' => h o' (mem_cons_of_mem o ho')

/-- The answer for the only certificate with the serial. -/
def answerFor (c : IssuedCertificate) (now : Time) : VerifyResponse :=
  match derived c now with
  | .revoked => ⟨false, .revoked⟩
  | .expired => ⟨false, .noCertificate⟩
  | .active => ⟨true, .ok⟩

theorem answer_of_mem (hserial : serial ≠ "") (hc : c ∈ certs) (hcs : c.serial = serial)
    (hone : ∀ o ∈ certs, o.serial = serial → o = c) :
    answer serial now certs = answerFor c now := by
  induction certs with
  | nil => cases hc
  | cons o certs ih =>
    have hrest : ∀ o ∈ certs, o.serial = serial → o = c := fun o' ho' =>
      hone o' (mem_cons_of_mem o ho')
    by_cases hos : o.serial = serial
    · obtain rfl := hone o mem_cons_self hos
      rw [answer, if_neg fun h => h.2 hos]
      unfold answerFor
      cases hd : derived o now with
      | revoked | active => rfl
      | expired =>
        -- behind it only the certificate itself could have the serial
        by_cases hmem : o ∈ certs
        · have h := ih hmem hrest
          unfold answerFor at h
          rwa [hd] at h
        · refine answer_of_missing hserial fun o' ho' heq => hmem ?_
          exact hrest o' ho' heq ▸ ho'
    · have hne : c ≠ o := fun heq => hos (heq ▸ hcs)
      rw [answer, if_pos ⟨hserial, hos⟩]
      exact ih ((mem_cons.1 hc).resolve_left hne) hrest

theorem answerFor_valid_iff :
    (answerFor c now).valid = true ↔ c.status ≠ .revoked ∧ now ≤ c.notAfter := by
  unfold answerFor derived
  by_cases hrev : c.status = .revoked
  · simp [hrev]
  by_cases hlt : now > c.notAfter
  · have hnot : ¬ now ≤ c.notAfter := Int.not_le.2 hlt
    simp [hrev, hlt, hnot]
  · simp [hrev, hlt, Int.not_lt.1 hlt]

theorem answerFor_revoked (h : c.status = .revoked) : (answerFor c now).reason = .revoked := by
  simp [answerFor, derived, h]

end Loop

/-! ## The page -/

theorem sortable_newerCertificate : Sortable Sql.NewerCertificate :=
  sortable_newestFirst IssuedCertificate.createdAt IssuedCertificate.id

section Page

variable {s : Database} {t : Id} {spiffeID serial : String} {now : Time} {c : IssuedCertificate}

/-- The rows the query returns. -/
def page (s : Database) (t : Id) (spiffeID : String) : List IssuedCertificate :=
  (Sql.sortRows Sql.NewerCertificate (s.certificates.rows.filter fun c =>
    c.tenantID == t && Sql.Shown (candidateFilter spiffeID) c)).take candidates

theorem mem_page_iff : c ∈ page s t spiffeID ↔
    c ∈ s.certificates.rows ∧ c.tenantID = t ∧ (spiffeID = "" ∨ c.spiffeID = spiffeID) ∧
      (newer s t spiffeID c).length < candidates := by
  have hshown : ∀ o, Sql.Shown (candidateFilter spiffeID) o =
      (spiffeID == "" || o.spiffeID == spiffeID) := fun o => by
    simp [Sql.Shown, candidateFilter]
  unfold page Sql.sortRows
  rw [sortable_newerCertificate.mem_take_iff, rank, filter_filter, mem_filter]
  · have hnewer : (s.certificates.rows.filter fun o => Sql.NewerCertificate o c &&
        (o.tenantID == t && Sql.Shown (candidateFilter spiffeID) o)) = newer s t spiffeID c := by
      refine filter_congr fun o _ => ?_
      rw [hshown, Bool.and_comm]
    rw [hnewer, hshown]
    simp only [Bool.and_eq_true, Bool.or_eq_true, beq_iff_eq, and_assoc]
  intro a ha b hb hab hba
  exact s.certificates.eq_of_key_eq (mem_of_mem_filter ha) (mem_of_mem_filter hb)
    (id_eq_of_not_newer IssuedCertificate.createdAt IssuedCertificate.id hab hba)

end Page

theorem exact_answerFor {s : Database} {t : Id} {spiffeID serial : String} {now : Time}
    {c : IssuedCertificate} (hc : c ∈ s.certificates.rows) (hnamed : Named t spiffeID serial c)
    (hone : ∀ o ∈ s.certificates.rows, Named t spiffeID serial o → o = c) :
    Exact s t spiffeID serial now (answerFor c now) := by
  constructor
  · rw [answerFor_valid_iff]
    constructor
    · rintro ⟨hrev, hlive⟩
      exact ⟨c, hc, hnamed, hrev, hlive⟩
    · rintro ⟨o, ho, honamed, hlive⟩
      exact hone o ho honamed ▸ hlive
  · rintro ⟨o, ho, honamed, hrev⟩
    exact answerFor_revoked (hone o ho honamed ▸ hrev)

/-- `Verify` of a non-empty serial answers, and the answer is right just when the certificate
that is asked for has expired or is one of the newest fifty. -/
theorem verify_exact_iff (s : Database) (huniq : UniqueSerials s) (env : Nat → Env)
    (hfault : (env 0).fault = .ok) (peer : String) (t : Id) (spiffeID serial : String)
    (hserial : serial ≠ "") :
    ∃ resp, ((verify (some peer) ⟨some t, spiffeID, serial⟩).run.exec env 0 s []).2.2
        = .ok (.ok resp) ∧
      (Exact s t spiffeID serial (env 1).clock resp ↔
        AmongNewest s t spiffeID serial (env 1).clock) := by
  refine ⟨answer serial (env 1).clock (page s t spiffeID), ?_, ?_⟩
  · have hpage : (transact (Sql.listCertificates t (candidateFilter spiffeID)) (env 0) s).1
        = .ok (page s t spiffeID) := by
      unfold transact
      rw [hfault]
      rfl
    have hread : (Sql.listCertificates t (candidateFilter spiffeID)).ReadOnly :=
      Sql.readOnly_query _
    show ((fetch (Sql.listCertificates t (candidateFilter spiffeID)) >>= _).run.exec env 0 s []).2.2
      = _
    rw [exec_fetch_bind env 0 s [] hread, hpage]
    rfl
  · constructor
    · intro hexact c hc hnamed hlive
      by_contra hfar
      -- no candidate has the serial: it would be this certificate
      have hmiss : answer serial (env 1).clock (page s t spiffeID) = ⟨false, .noCertificate⟩ := by
        refine answer_of_missing hserial fun o ho heq => hfar ?_
        obtain ⟨hos, hot, -, hlt⟩ := mem_page_iff.1 ho
        obtain rfl := huniq o hos c hc (hot.trans hnamed.1.symm) (heq.trans hnamed.2.1.symm)
        exact hlt
      rw [hmiss] at hexact
      by_cases hrev : c.status = .revoked
      · exact VerifyReason.noConfusion (hexact.revoked ⟨c, hc, hnamed, hrev⟩)
      · have hvalid := hexact.valid.2 ⟨c, hc, hnamed, hrev, hlive.resolve_left hrev⟩
        exact Bool.false_ne_true hvalid
    · intro hnear
      have hpage : ∀ c ∈ s.certificates.rows, Named t spiffeID serial c →
          c.status = .revoked ∨ (env 1).clock ≤ c.notAfter → c ∈ page s t spiffeID :=
        fun c hc hnamed hlive =>
          mem_page_iff.2 ⟨hc, hnamed.1, hnamed.2.2, hnear c hc hnamed hlive⟩
      by_cases hfound : ∃ c ∈ page s t spiffeID, c.serial = serial
      · obtain ⟨c, hc, hcs⟩ := hfound
        obtain ⟨hmem, hct, hspiffe, -⟩ := mem_page_iff.1 hc
        have hone : ∀ o ∈ s.certificates.rows, Named t spiffeID serial o → o = c :=
          fun o ho hnamed => huniq o ho c hmem (hnamed.1.trans hct.symm) (hnamed.2.1.trans hcs.symm)
        rw [answer_of_mem hserial hc hcs fun o ho heq =>
          hone o (mem_page_iff.1 ho).1 ⟨(mem_page_iff.1 ho).2.1, heq, (mem_page_iff.1 ho).2.2.1⟩]
        exact exact_answerFor hmem ⟨hct, hcs, hspiffe⟩ hone
      have hmiss : ∀ o ∈ page s t spiffeID, o.serial ≠ serial := fun o ho heq =>
        hfound ⟨o, ho, heq⟩
      rw [answer_of_missing hserial hmiss]
      constructor
      · constructor
        · intro h
          cases h
        · rintro ⟨c, hc, hnamed, -, hlive⟩
          exact absurd hnamed.2.1 (hmiss c (hpage c hc hnamed (.inr hlive)))
      · rintro ⟨c, hc, hnamed, hrev⟩
        exact absurd hnamed.2.1 (hmiss c (hpage c hc hnamed (.inl hrev)))

/-! ## A tenant with many certificates -/

namespace Sample

/-- `n + 1` ones. -/
def serial (n : Nat) : String := String.ofList (List.replicate (n + 1) '1')

/-- The `n`th certificate of tenant 1, an active one. -/
def row (n : Nat) : IssuedCertificate :=
  ⟨n, 1, 0, some .svid, none, serial n, "spiffe://td/a", "a", [], 0, 900, "", .active, "C", "R",
    [], true, true, none, "ann", none, none, n⟩

/-- The tenant has `n` certificates. -/
def rows (n : Nat) : List IssuedCertificate := (List.range n).map row

theorem nodup_rows (n : Nat) : ((rows n).map IssuedCertificate.id).Nodup := by
  have hids : (rows n).map IssuedCertificate.id = List.range n := by
    simp [rows, row, Function.comp_def]
  rw [hids]
  exact nodup_range

def database (n : Nat) : Database := { Database.empty with certificates := ⟨rows n, nodup_rows n⟩ }

theorem uniqueSerials_database (n : Nat) : UniqueSerials (database n) := by
  intro c hc o ho _ hserial
  obtain ⟨i, -, rfl⟩ := mem_map.1 hc
  obtain ⟨j, -, rfl⟩ := mem_map.1 ho
  have hlen := congrArg (fun s : String => s.toList.length) hserial
  simp only [row, serial, String.toList_ofList, length_replicate, Nat.add_right_cancel_iff]
    at hlen
  rw [hlen]

end Sample

open Lcm.Verify.Sample

/-- The older of two certificates is verified. -/
theorem verify_exact_two :
    ∃ resp, ((verify (some "spiffe://td/b") ⟨some 1, "", "1"⟩).run.exec
        (fun _ => Lcm.Sample.env 0) 0 (database 2) []).2.2 = .ok (.ok resp) ∧
      Exact (database 2) 1 "" "1" 100 resp := by
  obtain ⟨resp, hresp, hiff⟩ := verify_exact_iff (database 2)
    (uniqueSerials_database 2) (fun _ => Lcm.Sample.env 0) rfl "spiffe://td/b" 1 "" "1"
    (by decide)
  exact ⟨resp, hresp, hiff.2 (by decide)⟩

/-- The oldest of fifty-one certificates is reported as missing. -/
theorem verify_misses :
    ¬ ∀ (s : Database), UniqueSerials s → ∀ (env : Nat → Env), (env 0).fault = .ok →
      ∀ (peer : String) (t : Id) (spiffeID serial : String), serial ≠ "" →
        ∃ resp, ((verify (some peer) ⟨some t, spiffeID, serial⟩).run.exec env 0 s []).2.2
            = .ok (.ok resp) ∧ Exact s t spiffeID serial (env 1).clock resp := by
  intro h
  obtain ⟨resp, hresp, hexact⟩ := h (database 51) (uniqueSerials_database 51)
    (fun _ => Lcm.Sample.env 0) rfl "spiffe://td/b" 1 "" "1" (by decide)
  have hmissing : ((verify (some "spiffe://td/b") ⟨some 1, "", "1"⟩).run.exec
      (fun _ => Lcm.Sample.env 0) 0 (database 51) []).2.2
      = .ok (.ok ⟨false, .noCertificate⟩) := by
    decide +kernel
  obtain rfl : (⟨false, .noCertificate⟩ : VerifyResponse) = resp :=
    Except.ok.inj (Except.ok.inj (hmissing.symm.trans hresp))
  have hstored : row 0 ∈ (database 51).certificates.rows :=
    mem_map_of_mem (mem_range.2 (by decide))
  have hvalid := hexact.valid.2 ⟨row 0, hstored, by decide, by decide, by decide⟩
  cases hvalid

end Lcm.Verify
