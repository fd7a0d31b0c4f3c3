import Lcm.Issuance

/-!
# The lifetime of leaves and roots

A root is generated once for a trust domain, to last ten years, and is used for as long as its row
says `active`, which nothing ever changes. A leaf gets the lifetime that was asked for from the
clock at which it is signed, whatever is left of its root.

* `leaves_contained` — at clocks that never go back, leaves are valid only while their root is,
  if every call that signs comes early enough in the life of the tenant's roots;
* `late_leaf_outlives` — the run that shows that nothing else prevents it.
-/

namespace Lcm

open Conc Db Svc Ca Issue Issuance List

/-- A time as a certificate carries it, in whole seconds. -/
def wholeSeconds (t : Time) : Time := t / second * second

theorem wholeSeconds_mono {t t' : Time} (h : t ≤ t') : wholeSeconds t ≤ wholeSeconds t' :=
  Int.mul_le_mul_of_nonneg_right (Int.ediv_le_ediv (by decide) h) (by decide)

/-- What `CreateCertificate` has signed reads back with the times of its template. -/
def Platform.KeepsTimes (P : Platform) : Prop :=
  ∀ nonce tmpl parent pub key der, P.createCertificate nonce tmpl parent pub key = .ok der →
    ∀ block rest cert, P.pemDecode (Csr.encodeCertPEM P der) = some (block, rest) →
      P.parseCertificate block.bytes = .ok cert →
      cert.notBefore = wholeSeconds tmpl.notBefore ∧ cert.notAfter = wholeSeconds tmpl.notAfter

/-- The row of a CA says when its certificate is valid. -/
def CA.Tells (P : Platform) (ca : CA) : Prop :=
  ∀ key cert, signer P ca = .ok (key, cert) →
    cert.notBefore = wholeSeconds ca.notBefore ∧ cert.notAfter = wholeSeconds ca.notAfter

/-- The second act is not made at an earlier clock. -/
def Follows : SysAct → SysAct → Prop
  | .run _ e, .run _ e' => e.clock ≤ e'.clock
  | _, _ => True

instance : DecidableRel Follows
  | .run _ e, .run _ e' => inferInstanceAs (Decidable (e.clock ≤ e'.clock))
  | .spawn _, _ | .run _ _, .spawn _ => .isTrue trivial

/-- The clock never goes back. -/
def InTime (as : List SysAct) : Prop := as.Pairwise Follows

instance (as : List SysAct) : Decidable (InTime as) :=
  inferInstanceAs (Decidable (as.Pairwise Follows))

/-- The CAs of the database say when they are valid, and were there before the run. -/
def RootsBefore (P : Platform) (db : Database) (as : List SysAct) : Prop :=
  ∀ ca ∈ db.cas.rows, ca.Tells P ∧ ∀ j e, .run j e ∈ as → ca.notBefore ≤ e.clock

theorem rootsBefore_empty (P : Platform) (as : List SysAct) : RootsBefore P .empty as := by
  intro ca hca
  cases hca

def Call.OnRoots : Call → Prop
  | ensureCA _ _ | issue _ _ | renew _ _ | renewSystem _ _ | signLeaf _ _ _ _ _ => True
  | _ => False

/-- While a call that signs is under way, every CA of its tenant lasts as long as what the call
may sign at this clock. -/
def RootsLast (cfg : SysConfig) : SysAct → Prop
  | .spawn _ => True
  | .run j e => ∀ t ∈ cfg.threads[j]?, ∀ x ∈ t.call.lifetime?, ∀ ca ∈ cfg.store.cas.rows,
      ca.tenantID = x.1 → e.clock + x.2 ≤ ca.notAfter

instance (cfg : SysConfig) : (a : SysAct) → Decidable (RootsLast cfg a)
  | .spawn _ => .isTrue trivial
  | .run _ _ => inferInstanceAs (Decidable (∀ _ ∈ _, _))

/-- The leaf and the certificate it is signed under. -/
def Ev.signs? : Ev → Option (X509 × X509)
  | sign leaf parent => some (leaf, parent)
  | _ => none

/-- The leaf, as it is signed, is valid only while the certificate is that it is signed under. -/
def ContainedIn (leaf parent : X509) : Prop :=
  parent.notBefore ≤ wholeSeconds leaf.notBefore ∧ wholeSeconds leaf.notAfter ≤ parent.notAfter

/-- Every leaf that a call of the run has signed is valid only while its root is. -/
def NoneOutlives (P : Platform) (db : Database) (as : List SysAct) : Prop :=
  ∀ t ∈ (runFrom P db as).threads, ∀ x ∈ t.hist.filterMap Ev.signs?, ContainedIn x.1 x.2

instance (leaf parent : X509) : Decidable (ContainedIn leaf parent) :=
  inferInstanceAs (Decidable (_ ∧ _))

instance (P : Platform) (db : Database) (as : List SysAct) : Decidable (NoneOutlives P db as) :=
  inferInstanceAs (Decidable (∀ _ ∈ _, _))

namespace Leaves

theorem onIssuance_of_onRoots (c : Call) (h : c.OnRoots) : c.OnIssuance := by
  cases c <;> trivial

/-! ## Roots -/

section Roots

variable {P : Platform} {ca : CA}

theorem signer_ok {key : PrivateKey} {cert : X509} (h : signer P ca = .ok (key, cert)) :
    ∃ block rest, P.pemDecode ca.certPEM = some (block, rest) ∧
      P.parseCertificate block.bytes = .ok cert := by
  unfold signer at h
  split at h
  · split at h
    · split at h
      · split at h
        · next block rest hblock =>
          split at h
          · next cert' hcert =>
            cases h
            exact ⟨block, rest, hblock, hcert⟩
          · cases h
        · cases h
      · cases h
    · cases h
  · cases h

theorem tells_of_generated (hP : P.KeepsTimes) {t : Id} {td : String} {now : Time}
    (hgen : Generated P t td now ca) : ca.Tells P := by
  intro key cert hsigner
  obtain ⟨block, rest, hblock, hcert⟩ := signer_ok hsigner
  obtain ⟨uri, priv, serial, nonce, der, hcreate, hpem⟩ := hgen.cert
  rw [hpem] at hblock
  rw [hgen.notBefore, hgen.notAfter]
  exact hP nonce _ _ _ _ der hcreate block rest cert hblock hcert

end Roots

/-! ## Runs -/

section Runs

variable {P : Platform} {db : Database} {as : List SysAct} {ops : Call → Prop}

theorem clock_le (has : InTime as) {m n i j : Nat} {e e' : Env} (hm : as[m]? = some (.run i e))
    (hn : as[n]? = some (.run j e')) (hlt : m < n) : e.clock ≤ e'.clock := by
  obtain ⟨hm, hmeq⟩ := List.getElem?_eq_some_iff.1 hm
  obtain ⟨hn, hneq⟩ := List.getElem?_eq_some_iff.1 hn
  have hfollows := pairwise_iff_getElem.1 has m n hm hn hlt
  rw [hmeq, hneq] at hfollows
  exact hfollows

theorem roots_storeAt (hP : P.KeepsTimes) (hops : ∀ c, ops c → c.OnIssuance)
    (hcalls : ∀ a ∈ as, a.Calls ops) (has : InTime as) (hdb : RootsBefore P db as) {n : Nat}
    (hn : n ≤ as.length) : ∀ ca ∈ (storeAt P db as n).cas.rows, ca.Tells P ∧
      ∀ m j e, n ≤ m → as[m]? = some (.run j e) → ca.notBefore ≤ e.clock := by
  induction n with
  | zero =>
    intro ca hca
    obtain ⟨htells, hbefore⟩ := hdb ca hca
    exact ⟨htells, fun m j e _ ha => hbefore j e (mem_of_getElem? ha)⟩
  | succ n ih =>
    have hold : ∀ ca ∈ (storeAt P db as n).cas.rows, ca.Tells P ∧
        ∀ m j e, n + 1 ≤ m → as[m]? = some (.run j e) → ca.notBefore ≤ e.clock := by
      intro ca hca
      obtain ⟨htells, hbefore⟩ := ih (Nat.le_of_succ_le hn) ca hca
      exact ⟨htells, fun m j e hm => hbefore m j e (Nat.le_of_succ_le hm)⟩
    rcases moved hops hcalls P db hn with hsame | ⟨j, c, h, e, ev, -, hat⟩
    · rw [hsame]
      exact hold
    rcases hat.does.cas_cases with hsame | ⟨t, td, ca, -, hgen, hins⟩
    · rw [hsame]
      exact hold
    · -- the new root begins at the clock of the step that makes it
      intro row hrow
      rw [(Table.insert?_eq_some hins).2, mem_append, mem_singleton] at hrow
      rcases hrow with hrow | rfl
      · exact hold row hrow
      have htells : ca.Tells P := tells_of_generated hP hgen
      refine ⟨htells, fun m j' e' hm ha => ?_⟩
      change ca.notBefore ≤ e'.clock
      rw [hgen.notBefore]
      exact clock_le has hat.act ha hm

end Runs

end Leaves

open Leaves

/-- In every run at clocks that never go back, whose calls come early enough in the life of their
tenant's roots, every leaf that is signed is valid only while its root is. -/
theorem leaves_contained {P : Platform} {db : Database} {as : List SysAct} (hP : P.KeepsTimes)
    (hdb : RootsBefore P db as) (hcalls : ∀ a ∈ as, a.Calls Call.OnRoots) (has : InTime as)
    (hcond : AllMeet P RootsLast db as) : NoneOutlives P db as := by
  intro t ht x hx
  obtain ⟨ev, hev, hsigns⟩ := mem_filterMap.1 hx
  obtain ⟨leaf, parent⟩ := x
  obtain rfl : ev = .sign leaf parent := by
    unfold Ev.signs? at hsigns
    split at hsigns
    · cases hsigns
      rfl
    · cases hsigns
  obtain ⟨j, hj⟩ := mem_iff_getElem?.1 ht
  obtain ⟨hop, m, h, e, hat⟩ := stepAt_of_hist onIssuance_of_onRoots hcalls hj hev
  obtain ⟨tenant, ca, key, k₁, k₂, hk, hfound, hsigner, hclock, hne, hlasts⟩ := hat.does.because
  -- the root is stored when the call takes the time of the leaf
  obtain ⟨htenant, createdAt, hstored⟩ :=
    stored_of_found onIssuance_of_onRoots hcalls hat.trail hfound
  obtain ⟨_, e₂, _, hat₂, hnow⟩ := Saw.step hclock hat.trail
  have hrow := cas_mono onIssuance_of_onRoots hcalls hk (Nat.le_of_lt hat₂.lt) hstored
  obtain ⟨htells, hbefore⟩ := roots_storeAt hP onIssuance_of_onRoots hcalls has hdb
    (Nat.le_of_lt hat₂.lt) _ hrow
  obtain ⟨hstart, hend⟩ := htells key parent hsigner
  -- and lasts as long as the leaf
  obtain ⟨u, hu, hcall⟩ := hat₂.thread
  obtain ⟨⟨t', longest⟩, hlife⟩ : ∃ x, t.call.lifetime? = some x := by
    cases hc : t.call with
    | ensureCA t td => exact absurd hc (hne t td)
    | issue subj input | renew subj id | renewSystem t id | signLeaf t td spiffe pub ttl =>
      exact ⟨_, rfl⟩
    | _ =>
      rw [hc] at hop
      exact hop.elim
  obtain ⟨rfl, hlong⟩ := hlasts t' longest hlife
  have hlast : e₂.clock + longest ≤ ca.notAfter :=
    hat₂.meets hcond u hu (t', longest) (by rw [hcall]; exact hlife) { ca with createdAt } hrow
      htenant
  constructor
  · rw [hstart]
    exact wholeSeconds_mono (hnow ▸ hbefore k₂ j e₂ (Nat.le_refl _) hat₂.act)
  rw [hend]
  refine wholeSeconds_mono ?_
  calc leaf.notAfter ≤ leaf.notBefore + longest := sub_le_iff_le_add'.1 hlong
    _ = e₂.clock + longest := by rw [hnow]
    _ ≤ ca.notAfter := hlast

/-! ## A platform that keeps times

The certificates of this platform are their two times, in seconds, in eight bytes each. -/

namespace Sample

def stamp : Nat → Nat → Blob
  | 0, _ => []
  | k + 1, n => (n % 256).toUInt8 :: stamp k (n / 256)

def unstamp : Blob → Nat
  | [] => 0
  | b :: bs => b.toNat + 256 * unstamp bs

theorem length_stamp (k n : Nat) : (stamp k n).length = k := by
  induction k generalizing n with
  | zero => rfl
  | succ k ih => simp [stamp, ih]

theorem unstamp_stamp {k n : Nat} (h : n < 256 ^ k) : unstamp (stamp k n) = n := by
  induction k generalizing n with
  | zero =>
    have hn : n = 0 := by simpa using h
    simp [stamp, unstamp, hn]
  | succ k ih =>
    have hdiv : n / 256 < 256 ^ k := by
      rw [pow_succ] at h
      exact Nat.div_lt_of_lt_mul (by omega)
    simp only [stamp, unstamp, ih hdiv]
    have hbyte : (n % 256).toUInt8.toNat = n % 256 := by
      simp
    omega

/-- The time can be written in eight bytes. -/
def Datable (t : Time) : Prop := 0 ≤ t ∧ t / second < 256 ^ 8

instance (t : Time) : Decidable (Datable t) := inferInstanceAs (Decidable (_ ∧ _))

def dated : Platform := { platform with
  createCertificate := fun _ tmpl _ _ _ =>
    if Datable tmpl.notBefore ∧ Datable tmpl.notAfter then
      .ok (stamp 8 (tmpl.notBefore / second).toNat ++ stamp 8 (tmpl.notAfter / second).toNat)
    else .error (.external "x509: cannot represent time")
  parseCertificate := fun b => .ok { rootCert with
    notBefore := unstamp (b.take 8) * second
    notAfter := unstamp (b.drop 8) * second } }

theorem wholeSeconds_of_datable {t : Time} (h : Datable t) :
    ((unstamp (stamp 8 (t / second).toNat) : Nat) : Int) * second = wholeSeconds t := by
  obtain ⟨hpos, hlt⟩ := h
  have hsec : 0 ≤ t / second := Int.ediv_nonneg hpos (by decide)
  have hfits : (t / second).toNat < 256 ^ 8 := (Int.toNat_lt hsec).2 (by exact_mod_cast hlt)
  rw [unstamp_stamp hfits, Int.toNat_of_nonneg hsec]
  rfl

theorem dated_keepsTimes : dated.KeepsTimes := by
  intro nonce tmpl parent pub key der hcreate block rest cert hblock hcert
  simp only [dated] at hcreate
  split at hcreate
  · next hdates =>
    cases hcreate
    have hbytes : block.bytes = stamp 8 (tmpl.notBefore / second).toNat ++
        stamp 8 (tmpl.notAfter / second).toNat := by
      simp only [Csr.encodeCertPEM, dated, platform, bytes_text] at hblock
      split at hblock
      · cases hblock
      · cases hblock
        rfl
    simp only [dated, Except.ok.injEq] at hcert
    subst hcert
    rw [hbytes, take_left' (length_stamp 8 _), drop_left' (length_stamp 8 _)]
    exact ⟨wholeSeconds_of_datable hdates.1, wholeSeconds_of_datable hdates.2⟩
  · cases hcreate

/-- The world at the given clock. -/
def envAt (clock : Time) (id : Id) : Env := { env id with clock }

/-- A root is made at the start, and at the given clock a leaf is signed for the given time. -/
def leafAt (clock : Time) (ttl : Duration) : List SysAct :=
  .spawn (.ensureCA 1 "td") :: List.replicate 2 (.run 0 (envAt 0 20)) ++
    .spawn (.signLeaf 1 "td" "spiffe://td/a" (.ecdsa 256 7) ttl) ::
      List.replicate 4 (.run 1 (envAt clock 30))

end Sample

open Sample

/-- An hour before its root expires, a leaf is signed for a day. -/
theorem late_leaf_outlives :
    dated.KeepsTimes ∧
      RootsBefore dated .empty
        (leafAt (rootValidity - 3600 * second) (24 * 3600 * second)) ∧
      InTime (leafAt (rootValidity - 3600 * second) (24 * 3600 * second)) ∧
      ¬NoneOutlives dated .empty
        (leafAt (rootValidity - 3600 * second) (24 * 3600 * second)) :=
  ⟨dated_keepsTimes, rootsBefore_empty _ _, by decide +kernel, by decide +kernel⟩

/-- Two days before its root expires, it may be. -/
theorem leaves_contained_in_time :
    ((runFrom dated .empty
      (leafAt (rootValidity - 48 * 3600 * second) (24 * 3600 * second))).threads.any
        fun t => t.hist.any fun ev => ev.signs?.isSome) = true ∧
    NoneOutlives dated .empty
      (leafAt (rootValidity - 48 * 3600 * second) (24 * 3600 * second)) := by
  refine ⟨by decide +kernel, leaves_contained dated_keepsTimes (rootsBefore_empty _ _)
    ?_ (by decide +kernel) (by decide +kernel)⟩
  simp [leafAt, Act.Calls, Call.OnRoots]

end Lcm
