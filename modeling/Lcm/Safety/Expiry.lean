import Lcm.Certinfo
import Lcm.Safety.Leaves
import Lcm.Verify
import Lcm.Versions

/-!
# Is there one verdict on expiry?

Three functions say whether a certificate has expired. `deriveStatus` and the `derived` of the gRPC
server look at the end in the row, one with `≤` and the other with `<`; `certinfo` looks at the
certificate itself. The row of an SVID keeps the clock at which it was minted, to the microsecond,
and its certificate only the whole seconds.

* `Dated`: what the dates of a row have to do with those of its certificate.
* `expiry_agrees_iff`: at which times the three agree.
* `expiry_disagrees`: at the end in the row they do not.
-/

namespace Lcm

open Conc Db Svc Issue List

/-- A certificate that parses reads back from its PEM text, and what `CreateCertificate` has signed
parses, with the times of its template in whole seconds. -/
structure Platform.ReadsLeaves (P : Platform) : Prop where
  pem : ∀ der cert, P.parseCertificate der = .ok cert →
    P.trimSpace (Csr.encodeCertPEM P der) ≠ "" ∧
      ∃ rest, P.pemDecode (Csr.encodeCertPEM P der) = some (⟨"CERTIFICATE", der⟩, rest)
  created : ∀ nonce tmpl parent pub key der, P.createCertificate nonce tmpl parent pub key = .ok der →
    ∃ cert, P.parseCertificate der = .ok cert ∧ cert.notBefore = wholeSeconds tmpl.notBefore ∧
      cert.notAfter = wholeSeconds tmpl.notAfter

/-- What `certinfo` shows as the status of the stored certificate. -/
def shownValidity (P : Platform) (c : IssuedCertificate) (now : Time) :
    Option Certinfo.ValidityStatus :=
  ((Certinfo.decode P c.certPEM c.chainPEM now).details.map Certinfo.Details.validity).map
    Certinfo.Validity.status

/-- The three verdicts on expiry agree. -/
structure OneVerdict (P : Platform) (c : IssuedCertificate) (now : Time) : Prop where
  derived : deriveStatus c now = .expired ∨ c.status = .revoked ↔
    Verify.derived c now = .expired ∨ Verify.derived c now = .revoked
  shown : c.status ≠ .revoked →
    (deriveStatus c now = .expired ↔ shownValidity P c now = some .expired)

/-- The time is not at the end of the certificate: it is not the end itself; for an SVID it is not in
the last second before it either; and a certificate that ends before it begins has begun. -/
structure AwayFromEnd (c : IssuedCertificate) (now : Time) : Prop where
  ne_end : now ≠ c.notAfter
  second : defaultKind c.kind = .svid → now < c.notAfter → now ≤ wholeSeconds c.notAfter
  begun : c.notAfter ≤ now → c.notBefore ≤ now

variable {leaf : X509} {der : Blob}

namespace Expiry

/-! ## One row -/

section Rows

variable {P : Platform} {c : IssuedCertificate} {now : Time}

theorem deriveStatus_eq_expired (hrev : c.status ≠ .revoked) :
    deriveStatus c now = .expired ↔ c.notAfter ≤ now := by
  unfold deriveStatus
  by_cases hend : c.notAfter ≤ now
  · simp [hrev, hend]
  rw [if_neg hrev, if_neg hend]
  refine iff_of_false ?_ hend
  dsimp only
  split_ifs <;> exact nofun

theorem derived_gone (hrev : c.status ≠ .revoked) :
    Verify.derived c now = .expired ∨ Verify.derived c now = .revoked ↔ c.notAfter < now := by
  unfold Verify.derived
  by_cases hend : now > c.notAfter
  · simp [hrev, hend]
  · simp [hrev, hend]

theorem validity_expired :
    (Certinfo.validity leaf now).status = .expired ↔ leaf.notBefore ≤ now ∧ leaf.notAfter < now := by
  unfold Certinfo.validity
  by_cases hstart : now < leaf.notBefore
  · simp [hstart, Int.not_le.2 hstart]
  by_cases hend : leaf.notAfter < now
  · simp [hstart, hend, Int.not_lt.1 hstart]
  · simp [hstart, hend]

theorem oneVerdict_iff (hrev : c.status ≠ .revoked)
    (hleaf : Certinfo.firstCertificate P c.certPEM = .ok leaf) :
    OneVerdict P c now ↔ (c.notAfter ≤ now ↔ c.notAfter < now) ∧
      (c.notAfter ≤ now ↔ leaf.notBefore ≤ now ∧ leaf.notAfter < now) := by
  have hshown : shownValidity P c now = some .expired ↔
      leaf.notBefore ≤ now ∧ leaf.notAfter < now := by
    rw [shownValidity, Certinfo.decode, hleaf, Option.map_some, Option.map_some, Option.some.injEq]
    exact validity_expired
  constructor
  · intro h
    have hderived := h.derived
    rw [deriveStatus_eq_expired hrev, derived_gone hrev, or_iff_left hrev] at hderived
    have hshow := h.shown hrev
    rw [deriveStatus_eq_expired hrev, hshown] at hshow
    exact ⟨hderived, hshow⟩
  rintro ⟨hderived, hshow⟩
  refine ⟨?_, fun _ => ?_⟩
  · rwa [deriveStatus_eq_expired hrev, derived_gone hrev, or_iff_left hrev]
  · rwa [deriveStatus_eq_expired hrev, hshown]

end Rows

/-! ## The dates of a row and of its certificate -/

/-- The stored certificate can be read, and its dates are those of the row, or their whole seconds. -/
inductive Dated (P : Platform) (c : IssuedCertificate) : Prop where
  | svid (leaf : X509) (hleaf : Certinfo.firstCertificate P c.certPEM = .ok leaf)
      (hkind : defaultKind c.kind = .svid) (hstart : leaf.notBefore = wholeSeconds c.notBefore)
      (hend : leaf.notAfter = wholeSeconds c.notAfter) (hspan : c.notBefore ≤ c.notAfter)
  | generic (leaf : X509) (hleaf : Certinfo.firstCertificate P c.certPEM = .ok leaf)
      (hkind : defaultKind c.kind = .generic) (hstart : leaf.notBefore = c.notBefore)
      (hend : leaf.notAfter = c.notAfter)

section Dates

variable {P : Platform} {c : IssuedCertificate} {now : Time}

theorem svid_agree_iff {start last floor now : Int} (hstart : start ≤ floor) (hfloor : floor ≤ last) :
    (last ≤ now ↔ last < now) ∧ (last ≤ now ↔ start ≤ now ∧ floor < now) ↔
      now ≠ last ∧ (now < last → now ≤ floor) := by
  omega

theorem generic_agree_iff {start last now : Int} :
    (last ≤ now ↔ last < now) ∧ (last ≤ now ↔ start ≤ now ∧ last < now) ↔
      now ≠ last ∧ (last ≤ now → start ≤ now) := by
  omega

theorem oneVerdict_iff_of_dated (h : Dated P c) :
    OneVerdict P c now ↔ c.status = .revoked ∨ AwayFromEnd c now := by
  by_cases hrev : c.status = .revoked
  · exact iff_of_true ⟨by simp [Verify.derived, hrev], fun hne => absurd hrev hne⟩ (.inl hrev)
  rw [or_iff_right hrev]
  cases h with
  | svid leaf hleaf hkind hstart hend hspan =>
    rw [oneVerdict_iff hrev hleaf, hstart, hend,
      svid_agree_iff (wholeSeconds_mono hspan) (Int.ediv_mul_le _ (by decide))]
    constructor
    · rintro ⟨hne, hsecond⟩
      exact ⟨hne, fun _ => hsecond, hspan.trans⟩
    · rintro ⟨hne, hsecond, -⟩
      exact ⟨hne, hsecond hkind⟩
  | generic leaf hleaf hkind hstart hend =>
    rw [oneVerdict_iff hrev hleaf, hstart, hend, generic_agree_iff]
    constructor
    · rintro ⟨hne, hbegun⟩
      refine ⟨hne, fun hsvid => ?_, hbegun⟩
      rw [hkind] at hsvid
      cases hsvid
    · rintro ⟨hne, -, hbegun⟩
      exact ⟨hne, hbegun⟩

theorem clampValidity_nonneg (seconds : Int) : 0 ≤ clampValidity seconds := by
  unfold clampValidity
  refine Int.mul_nonneg ?_ (by decide)
  have hmin : minValiditySeconds = 60 := rfl
  have hmax : maxValiditySeconds = 365 * 24 * 3600 := rfl
  split
  · omega
  · split <;> omega

theorem firstCertificate_encode (hP : P.ReadsLeaves) {cert : X509}
    (hcert : P.parseCertificate der = .ok cert) :
    Certinfo.firstCertificate P (Csr.encodeCertPEM P der) = .ok cert := by
  obtain ⟨hne, rest, hpem⟩ := hP.pem der cert hcert
  have hblock : Certinfo.firstBlock P ((Csr.encodeCertPEM P der).utf8ByteSize + 1)
      (Csr.encodeCertPEM P der) = some ⟨"CERTIFICATE", der⟩ := by
    simp [Certinfo.firstBlock, hpem]
  rw [Certinfo.firstCertificate, if_neg hne, hblock]
  simp only [hcert]

theorem splitChain_ok {chain leafPEM restPEM : String}
    (h : splitChain P chain = .ok (leafPEM, restPEM, leaf, der)) :
    leafPEM = Csr.encodeCertPEM P der ∧ P.parseCertificate der = .ok leaf := by
  unfold splitChain at h
  split at h
  · cases h
  split at h
  · cases h
  rename_i hcert
  cases h
  exact ⟨rfl, hcert⟩

theorem parse_of_mem_decodeCerts {fuel : Nat} {text : String} {cs : List (X509 × Blob)}
    (h : decodeCerts P fuel text = .ok cs) :
    ∀ x ∈ cs, P.parseCertificate x.2 = .ok x.1 := by
  induction fuel generalizing text cs with
  | zero =>
    cases h
    exact fun x hx => by cases hx
  | succ fuel ih =>
    unfold decodeCerts at h
    split at h
    · split at h
      · cases h
      · cases h
        exact fun x hx => by cases hx
    split at h
    · cases h
    split at h
    · cases h
    rename_i cert hcert
    cases hrest : decodeCerts P fuel _ with
    | error e =>
      rw [hrest] at h
      cases h
    | ok tail =>
      rw [hrest] at h
      cases h
      intro x hx
      rcases mem_cons.1 hx with rfl | hx
      · exact hcert
      · exact ih hrest x hx

theorem parseImportCerts_ok {certPEM chainPEM chain : String}
    (h : parseImportCerts P certPEM chainPEM = .ok (leaf, der, chain)) :
    P.parseCertificate der = .ok leaf := by
  unfold parseImportCerts at h
  simp only [bind, Except.bind] at h
  split at h
  · cases h
  split at h
  · cases h
  rename_i own hown
  split at h
  · cases h
  rename_i extra hextra
  split at h
  · cases h
  rename_i leaf' der' rest hall
  split at h
  · cases h
  split at h
  · cases h
  cases h
  have hmem : (leaf, der) ∈ own ++ extra := hall ▸ mem_cons_self
  rcases mem_append.1 hmem with hmem | hmem
  · exact parse_of_mem_decodeCerts hown _ hmem
  · exact parse_of_mem_decodeCerts hextra _ hmem

theorem dated_of_new (hP : P.ReadsLeaves) {call : Call} {g : Progress} {row : IssuedCertificate}
    (hnew : NewRow P call g row) : Dated P row := by
  cases hnew.made with
  | minted subj issuer sid req caRow now serial der hactor hasked hrow hsigned =>
    obtain ⟨nonce, uri, pub, parent, key, hcreate⟩ := hsigned
    obtain ⟨cert, hcert, hstart, hend⟩ := hP.created _ _ _ _ _ der hcreate
    rw [hrow]
    refine .svid cert (firstCertificate_encode hP hcert) rfl hstart hend ?_
    exact le_add_of_nonneg_right (clampValidity_nonneg req.validitySeconds)
  | ordered subj r issuerID names csr dk ar ds chain leafPEM restPEM leaf der hcall hsplit hrow =>
    obtain ⟨rfl, hcert⟩ := splitChain_ok hsplit
    rw [hrow]
    exact .generic leaf (firstCertificate_encode hP hcert) rfl rfl rfl
  | reordered subj old ds chain leafPEM restPEM leaf der key pem nonce hactor hold hkind hds hsplit
      hrow =>
      obtain ⟨rfl, hcert⟩ := splitChain_ok hsplit
      rw [hrow]
      exact .generic leaf (firstCertificate_encode hP hcert) rfl rfl rfl
  | imported subj input leaf der chain pem ds nonce hcall hcerts hpem hseal hrow =>
    rw [hrow]
    exact .generic leaf (firstCertificate_encode hP (parseImportCerts_ok hcerts)) rfl rfl rfl

theorem Dated.congr {r : IssuedCertificate} (h : Dated P r) (hleaf : r.leaf = c.leaf)
    (hkind : defaultKind c.kind = defaultKind r.kind) : Dated P c := by
  simp only [IssuedCertificate.leaf, Prod.mk.injEq] at hleaf
  obtain ⟨hpem, hbefore, hafter⟩ := hleaf
  cases h with
  | svid leaf hread hk hstart hend hspan =>
    rw [hpem] at hread
    rw [hbefore] at hstart hspan
    rw [hafter] at hend hspan
    exact .svid leaf hread (hkind.trans hk) hstart hend hspan
  | generic leaf hread hk hstart hend =>
    rw [hpem] at hread
    exact .generic leaf hread (hkind.trans hk) (hstart.trans hbefore) (hend.trans hafter)

end Dates

/-! ## Runs -/

/-- All versions of a certificate are of one leaf, and what calls have stored is dated by it. -/
structure OneLeaf (P : Platform) (us : List (Record Database Ev Call)) (s : Database) : Prop where
  same : ∀ r r', Version us s r → Version us s r' → r.id = r'.id → r.leaf = r'.leaf
  dated : ∀ (j : Nat) (u : Record Database Ev Call), us[j]? = some u →
    ∀ row ∈ (progress u.hist).minted, Dated P row

section Run

variable {P : Platform} {us : List (Record Database Ev Call)} {e : Env} {s s' : Database} {ev : Ev}
  {i : Nat} {t : Record Database Ev Call}

theorem oneLeaf_nil (db : Database) : OneLeaf P [] db where
  same r r' hr hr' hid := by rw [eq_of_version_nil hr hr' hid]
  dated j u hu := by cases hu

theorem OneLeaf.new (h : OneLeaf P us s) (c : Call) : OneLeaf P (us ++ [Config.fresh c s]) s where
  same r r' hr hr' := h.same r r' (version_new hr) (version_new hr')
  dated j u hu row hrow := by
    rcases getElem?_append_cases hu with hu | rfl
    · exact h.dated j u hu row hrow
    · cases hrow

theorem OneLeaf.step (h : OneLeaf P us s) (hP : P.ReadsLeaves) (hV : Versioned us s)
    (hi : us[i]? = some t) (hhap : Happens e s ev s')
    (hproto : Protocol P t.call (progress t.hist) ev)
    (hdraws : ∀ id, ev.Draws e id → Unused us s id) : OneLeaf P (us.set i (t.push ev)) s' where
  same r r' hr hr' hid := by
    have hagree := hV.agree_step hi hhap hproto hdraws (f := IssuedCertificate.leaf)
      (D := fun _ => False) ?_ ?_ ?_ ?_
    · exact (hagree r r' hr hr' hid).resolve_right not_false
    · exact fun q q' hq hq' hid => .inl (h.same q q' hq hq' hid)
    · exact fun q' hd => .inl hd.leaf
    · exact fun row q' _ hleaf _ => hleaf
    · exact fun old id => rfl
  dated j u hu row hrow := by
    rcases getElem?_set_cases hu with ⟨-, rfl⟩ | ⟨-, hu⟩
    · rw [Record.push_hist, progress_push] at hrow
      rcases Progress.mem_minted_next_cases hrow with hrow | rfl
      · exact h.dated i t hi row hrow
      · exact dated_of_new hP hproto.2
    · exact h.dated j u hu row hrow

end Run

end Expiry

open Expiry

/-- In every run of the calls on certificates in which drawn ids are new, the three verdicts on a
certificate that one of the calls has stored agree just when it is revoked or the time is not at its
end. -/
theorem expiry_agrees_iff {P : Platform} (hP : P.ReadsLeaves) {db : Database} {as : List SysAct}
    (hcalls : ∀ a ∈ as, a.Calls Call.OnCertificates) (hnew : AllMeet P DrawsNew db as) {i : Nat}
    {t : Record Database Ev Call} {row c : IssuedCertificate}
    (hi : (runFrom P db as).records[i]? = some t) (hrow : row ∈ (progress t.hist).minted)
    (hc : c ∈ (runFrom P db as).store.certificates.rows) (hid : c.id = row.id) (now : Time) :
    OneVerdict P c now ↔ c.status = .revoked ∨ AwayFromEnd c now := by
  obtain ⟨hV, hleaf⟩ : Versioned (runFrom P db as).records (runFrom P db as).store ∧
      OneLeaf P (runFrom P db as).records (runFrom P db as).store := by
    refine versioned_exec (fun _ h => h) (fun _ _ => trivial) hcalls hnew (oneLeaf_nil db) ?_ ?_
    · exact fun us c s h => h.new c
    · intro us i t e s ev s' hi _ hV h hhap hproto hdraws
      exact h.step hP hV hi hhap hproto hdraws
  have hminted : Version (runFrom P db as).records (runFrom P db as).store row := .minted hi hrow
  have hstored : Version (runFrom P db as).records (runFrom P db as).store c := .stored hc
  have hdated : Dated P c := (hleaf.dated i t hi row hrow).congr
    (hleaf.same row c hminted hstored hid.symm) (hV.home row c hminted hstored hid.symm).kind
  exact oneVerdict_iff_of_dated hdated

/-! ## A certificate in the sample deployment -/

namespace Sample

/-- The platform that keeps times, on which nothing is no certificate. -/
def readable : Platform := { dated with
  parseCertificate := fun b =>
    if b = [] then .error (.external "x509: malformed certificate") else dated.parseCertificate b }

theorem readable_readsLeaves : readable.ReadsLeaves where
  pem der cert hcert := by
    have hne : der ≠ [] := by
      rintro rfl
      cases hcert
    have htext : text der ≠ "" := by
      intro h
      have := congrArg bytes h
      rw [bytes_text] at this
      exact hne this
    refine ⟨htext, "", ?_⟩
    simp [Csr.encodeCertPEM, readable, dated, platform, htext, bytes_text]
  created nonce tmpl parent pub key der hcreate := by
    simp only [readable, dated] at hcreate
    split at hcreate
    · next hdates =>
      cases hcreate
      have hne : stamp 8 (tmpl.notBefore / second).toNat ++
          stamp 8 (tmpl.notAfter / second).toNat ≠ [] := by
        intro h
        have := congrArg List.length h
        simp [length_stamp] at this
      have hparse : readable.parseCertificate _ = dated.parseCertificate _ := if_neg hne
      refine ⟨_, hparse.trans rfl, ?_⟩
      rw [take_left' (length_stamp 8 _), drop_left' (length_stamp 8 _)]
      exact ⟨wholeSeconds_of_datable hdates.1, wholeSeconds_of_datable hdates.2⟩
    · cases hcreate

/-- `Issue` runs at the clock 100, a tenth of a millisecond past a whole second. -/
def issueDated : List SysAct := .spawn (.issue admin keyInput) :: steps 0 19 10

end Sample

theorem Expiry.not_oneVerdict_at_end {P : Platform} {c : IssuedCertificate}
    (hrev : c.status ≠ .revoked) : ¬ OneVerdict P c c.notAfter := by
  intro h
  have hexpired := (deriveStatus_eq_expired hrev).2 (le_refl c.notAfter)
  exact lt_irrefl _ ((derived_gone hrev).1 (h.derived.1 (.inl hexpired)))

open Sample in
set_option maxRecDepth 100000 in
/-- A certificate that `Issue` has just stored: at the end in its row, `deriveStatus` has it expired
and the gRPC server does not; a moment before, `certinfo` has it expired and `deriveStatus` does
not. -/
theorem expiry_disagrees :
    ∃ t ∈ (runFrom readable database issueDated).records, ∃ row ∈ (progress t.hist).minted,
      ∃ c ∈ (runFrom readable database issueDated).store.certificates.rows, c.id = row.id ∧
        ¬ OneVerdict readable c c.notAfter ∧ ¬ OneVerdict readable c (c.notAfter - 50) := by
  have hrun : ∃ t ∈ (runFrom readable database issueDated).records, ∃ row ∈ (progress t.hist).minted,
      ∃ c ∈ (runFrom readable database issueDated).store.certificates.rows, c.id = row.id ∧
        c.status ≠ .revoked ∧ deriveStatus c (c.notAfter - 50) ≠ .expired ∧
          shownValidity readable c (c.notAfter - 50) = some .expired := by decide
  obtain ⟨t, ht, row, hrow, c, hc, hid, hrev, hderived, hshown⟩ := hrun
  exact ⟨t, ht, row, hrow, c, hc, hid, not_oneVerdict_at_end hrev,
    fun h => hderived ((h.shown hrev).2 hshown)⟩

open Sample in
set_option maxRecDepth 100000 in
/-- Early in its life the three agree on that certificate. -/
theorem expiry_agrees_early :
    ∃ c ∈ (runFrom readable database issueDated).store.certificates.rows, c.id = 10 ∧
      OneVerdict readable c 200 := by
  have hchecked : AllMeet readable (fun cfg a => drawsNew cfg a = true) database issueDated := by
    decide
  have hcalls : ∀ a ∈ issueDated, a.Calls Call.OnCertificates := by
    simp [issueDated, steps, Act.Calls, Call.OnCertificates]
  have hfirst : ((runFrom readable database issueDated).records[0]?.any fun t =>
      (progress t.hist).minted.any fun row => row.id == 10) = true := by decide
  have hrows : ∃ c ∈ (runFrom readable database issueDated).store.certificates.rows, c.id = 10 ∧
      200 < c.notAfter ∧ 200 ≤ wholeSeconds c.notAfter := by decide
  obtain ⟨t, hi, ht⟩ := (Option.any_eq_true _ _).1 hfirst
  obtain ⟨row, hrow, hid⟩ := any_eq_true.1 ht
  obtain ⟨c, hc, hcid, hlt, hle⟩ := hrows
  have haway : AwayFromEnd c 200 := ⟨ne_of_lt hlt, fun _ _ => hle, fun h => absurd hlt (not_lt.2 h)⟩
  exact ⟨c, hc, hcid, (expiry_agrees_iff readable_readsLeaves hcalls
    (Config.Meets.mono _ drawsNew_of_check hchecked) hi hrow hc
    (hcid.trans (beq_iff_eq.1 hid).symm) 200).2 (.inr haway)⟩

end Lcm
