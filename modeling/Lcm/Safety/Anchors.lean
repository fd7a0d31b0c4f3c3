import Lcm.Issuance
import Lcm.Spiffe

/-!
# The anchors of issuers

An issuer of type `self_signed` mints under the CA that it references, and what it mints is
returned with the bundle of the certificate's trust domain. `CreateIssuer` makes the two agree: it
ensures the CA of the issuer's trust domain. Nothing checks it again. The importer writes the type
and the trust domain of an issuer, and never its CA; a renewal takes the trust domain from the
certificate and the CA from the issuer.

* `issuers_anchored` — minting issuers reference a CA of their tenant and trust domain, and what
  is minted chains to the bundle it is returned with, if imports bring no minting issuer that is
  not anchored already, and ids of issuers are not drawn again while calls hold on to them;
* `import_moves_issuer` — the run that shows what an import does otherwise.

The invariant is `Database.Rooted`; `Writing` says what a transaction that writes issuers may do
while it is under way, and `Pinned` what stays true of an issuer that a call has read.
-/

namespace Lcm

open Conc Db Svc Ca Issue Issuance List Table Database Sql

/-- The issuer references a CA of its tenant for the trust domain. -/
def Issuer.RootedIn (i : Issuer) (cas : Table CA.id) (trustDomain : String) : Prop :=
  ∃ ca ∈ cas.rows, i.caID = some ca.id ∧ ca.tenantID = i.tenantID ∧ ca.trustDomain = trustDomain

instance (i : Issuer) (cas : Table CA.id) (td : String) : Decidable (i.RootedIn cas td) :=
  inferInstanceAs (Decidable (∃ _ ∈ _, _))

/-- The issuer mints under no CA but one of the trust domain. -/
def Issuer.MintsFor (i : Issuer) (cas : Table CA.id) (trustDomain : String) : Prop :=
  i.caID = none ∨ ∃ ca ∈ cas.rows, i.caID = some ca.id ∧ ca.trustDomain = trustDomain

instance (i : Issuer) (cas : Table CA.id) (td : String) : Decidable (i.MintsFor cas td) :=
  inferInstanceAs (Decidable (_ ∨ _))

/-- Every issuer that mints references a CA of its tenant and of its trust domain. -/
def Database.Anchored (s : Database) : Prop :=
  ∀ i ∈ s.issuers.rows, i.type = .selfSigned → i.RootedIn s.cas i.trustDomain

instance (s : Database) : Decidable s.Anchored := inferInstanceAs (Decidable (∀ _ ∈ _, _))

/-- The database is anchored, and so are the certificates that can be renewed from it. -/
structure Database.Rooted (P : Platform) (s : Database) : Prop where
  issuers : s.Anchored
  certificates : ∀ c ∈ s.certificates.rows, c.kind ≠ some .generic →
    ∀ sid ∈ Csr.parseSPIFFEID P c.spiffeID, ∀ i ∈ s.issuers.rows, i.id = c.issuerID →
      i.MintsFor s.cas sid.trustDomain
  /-- the foreign key of the certificates -/
  issued : ∀ c ∈ s.certificates.rows, ∃ i ∈ s.issuers.rows, i.id = c.issuerID
  serving : ∀ ca ∈ s.cas.rows, ca.state = .active ∨ ca.state = .retiring

/-- An identity that has been parsed and printed has its trust domain when it is parsed again. -/
def Platform.ReadsBack (P : Platform) : Prop :=
  ∀ text id id', Csr.parseSPIFFEID P text = some id → Csr.parseSPIFFEID P id.string = some id' →
    id'.trustDomain = id.trustDomain

theorem readsBack_of_parsesURLs {P : Platform} {parseIPv6 : Net.Bytes → Bool}
    (hP : Spiffe.ParsesURLs P parseIPv6) : P.ReadsBack := by
  intro text id id' h h'
  rw [Spiffe.parseSPIFFEID_text hP, Spiffe.parseSPIFFEID_eq_some_iff] at h h'
  rw [Spiffe.encode_string] at h'
  exact Net.encode_inj
    (Spiffe.trustDomain_of_spells_string h.2.2.valid.trustDomain_valid h'.2.2)

/-! ## The condition -/

/-- The tenant has the issuers that mint of the document already; an overwrite finds them with a CA
of the document's trust domain. The certificates of the document are of the trust domain of the
CA of their issuer. -/
def ImportAnchored (P : Platform) (s : Database) (t : Id) (doc : Transfer.Document)
    (mode : String) : Prop :=
  (∀ di ∈ doc.issuers, di.type = .selfSigned →
    (Transfer.issuerIndex P s t).lookup (P.toLower di.name) ≠ none ∧
    (mode ≠ "skip" → ∀ i ∈ s.issuers.rows, i.tenantID = t → P.toLower i.name = P.toLower di.name →
      i.RootedIn s.cas di.trustDomain)) ∧
  ∀ dc ∈ doc.certificates, ∀ sid ∈ Csr.parseSPIFFEID P dc.spiffeID,
    ∀ i ∈ s.issuers.rows, i.tenantID = t → P.toLower i.name = P.toLower dc.issuer →
      i.MintsFor s.cas sid.trustDomain

instance (P : Platform) (s : Database) (t : Id) (doc : Transfer.Document) (mode : String) :
    Decidable (ImportAnchored P s t doc mode) := inferInstanceAs (Decidable (_ ∧ _))

/-- The issuer a call has read, itself or in a certificate. -/
def Ev.issuerID? : Ev → Option Id
  | readIssuer (.ok i) => some i.id
  | getCertificate _ _ (.ok c) => some c.issuerID
  | _ => none

/-- The step leaves the anchors of the issuers alone: an import as above, an update while the
issuer has the CA that the call has read, a new issuer under an id that no call has read. -/
def Ev.KeepsAnchors (P : Platform) (cfg : SysConfig) : Ev → Prop
  | importBackup t doc mode _ => ImportAnchored P cfg.store t doc mode
  | updateIssuer row _ => ∀ i ∈ cfg.store.issuers.rows, i.id = row.id → i.caID = row.caID
  | insertIssuer row _ => row.id ∉ cfg.events.filterMap Ev.issuerID?
  | _ => True

instance (P : Platform) (cfg : SysConfig) : (ev : Ev) → Decidable (ev.KeepsAnchors P cfg) :=
  fun ev => by
    unfold Ev.KeepsAnchors
    split <;> infer_instance

/-- The act leaves the anchors of the issuers alone. -/
def KeepsAnchors (P : Platform) (cfg : SysConfig) : SysAct → Prop
  | .spawn _ => True
  | .run j e => ∀ ev ∈ cfg.emits j e, ev.KeepsAnchors P cfg

instance (P : Platform) (cfg : SysConfig) : (a : SysAct) → Decidable (KeepsAnchors P cfg a)
  | .spawn _ => .isTrue trivial
  | .run _ _ => inferInstanceAs (Decidable (∀ _ ∈ _, _))

/-! ## What is minted -/

def SignedUnder (P : Platform) (ca : CA) (certPEM : String) : Prop :=
  ∃ key cert nonce leaf pub der, signer P ca = .ok (key, cert) ∧
    P.createCertificate nonce leaf cert pub key = .ok der ∧ certPEM = Csr.encodeCertPEM P der

/-- The bundle is made of stored roots, and the certificate has been signed under one of them. -/
def ChainsInto (P : Platform) (s : Database) (b : Bundle) : Prop :=
  ∃ roots : List CA, (∀ ca ∈ roots, ca ∈ s.cas.rows) ∧
    b.bundlePEM = String.join (roots.map CA.certPEM) ∧ ∃ ca ∈ roots, SignedUnder P ca b.certPEM

/-- The event is the read of a certificate that came from an ACME order. -/
def Ev.loadsGeneric : Ev → Bool
  | getCertificate _ _ (.ok c) => c.kind == some .generic
  | _ => false

/-- The call is `Issue`, or it renews a certificate that did not come from an ACME order. -/
def MintsAlone (t : SysThread) : Prop :=
  (∃ subj input, t.call = .issue subj input) ∨
    t.call.Renews ∧ (t.hist.any Ev.loadsGeneric) = false

/-- What the calls of the run have minted chains to a root of the bundle it was returned with. -/
def AllChain (P : Platform) (cfg : SysConfig) : Prop :=
  ∀ t ∈ cfg.threads, MintsAlone t → ∀ b, Returned t (.bundle b) → ChainsInto P cfg.store b

variable {cas : Table CA.id} {i row : Issuer} {td : String} {id t : Id} {r : Except Err Unit}
  {k : Nat} {b : Bundle} {s : Database}

namespace Anchors

variable {P : Platform} {s s' s₀ : Database} {f : IssuedCertificate → IssuedCertificate}
  {cas' : Table CA.id}

/-! ## Issuers and their CAs -/

theorem rootedIn_mono (hcas : ∀ ca ∈ cas.rows, ca ∈ cas'.rows) (h : i.RootedIn cas td) :
    i.RootedIn cas' td := by
  obtain ⟨ca, hca, hrest⟩ := h
  exact ⟨ca, hcas ca hca, hrest⟩

theorem rootedIn_congr {o : Issuer} (hca : i.caID = o.caID) (ht : i.tenantID = o.tenantID)
    (h : o.RootedIn cas td) : i.RootedIn cas td := by
  unfold Issuer.RootedIn
  rw [hca, ht]
  exact h

theorem mintsFor_mono (hcas : ∀ ca ∈ cas.rows, ca ∈ cas'.rows) (h : i.MintsFor cas td) :
    i.MintsFor cas' td := by
  refine h.imp_right ?_
  rintro ⟨ca, hca, hrest⟩
  exact ⟨ca, hcas ca hca, hrest⟩

theorem mintsFor_congr {o : Issuer} (hca : i.caID = o.caID) (h : o.MintsFor cas td) :
    i.MintsFor cas td := by
  unfold Issuer.MintsFor
  rw [hca]
  exact h

theorem trustDomain_of_mintsFor {ca : CA} (h : i.MintsFor cas td) (hca : ca ∈ cas.rows)
    (hid : i.caID = some ca.id) : ca.trustDomain = td := by
  rcases h with hnone | ⟨ca', hca', hid', htd⟩
  · rw [hid] at hnone
    cases hnone
  rw [hid] at hid'
  rw [eq_of_key_eq hca hca' (Option.some.inj hid')]
  exact htd

/-! ## What the tables may become -/

theorem rooted_congr (hs : s.Rooted P) (hissuers : s'.issuers = s.issuers)
    (hcertificates : s'.certificates = s.certificates) (hcas : s'.cas = s.cas) : s'.Rooted P := by
  obtain ⟨hi, hc, hf, hca⟩ := hs
  constructor
  · unfold Anchored
    rw [hissuers, hcas]
    exact hi
  · rw [hissuers, hcertificates, hcas]
    exact hc
  · rw [hissuers, hcertificates]
    exact hf
  · rw [hcas]
    exact hca

theorem rooted_addCA (hs : s.Rooted P) {ca : CA} (hstate : ca.state = .active)
    (hins : s.cas.insert? ca = some s'.cas) (hissuers : s'.issuers = s.issuers)
    (hcertificates : s'.certificates = s.certificates) : s'.Rooted P := by
  have hrows := (insert?_eq_some hins).2
  have hmono : ∀ ca ∈ s.cas.rows, ca ∈ s'.cas.rows := by
    intro x hx
    rw [hrows]
    exact mem_append_left _ hx
  constructor
  · unfold Anchored
    rw [hissuers]
    exact fun i hi htype => rootedIn_mono hmono (hs.issuers i hi htype)
  · rw [hissuers, hcertificates]
    intro c hc hkind sid hsid i hi hid
    exact mintsFor_mono hmono (hs.certificates c hc hkind sid hsid i hi hid)
  · rw [hissuers, hcertificates]
    exact hs.issued
  intro x hx
  rw [hrows, mem_append, mem_singleton] at hx
  rcases hx with hx | rfl
  · exact hs.serving x hx
  · exact .inl hstate

theorem rooted_mapCertificate (hs : s.Rooted P) {hf : ∀ c, (f c).id = c.id}
    (hkeep : ∀ c, (f c).kind = c.kind ∧ (f c).spiffeID = c.spiffeID ∧ (f c).issuerID = c.issuerID) :
    (s.mapCertificate id f hf).Rooted P := by
  have hrow : ∀ c ∈ (s.mapCertificate id f hf).certificates.rows, ∃ o ∈ s.certificates.rows,
      c.kind = o.kind ∧ c.spiffeID = o.spiffeID ∧ c.issuerID = o.issuerID := by
    intro c hc
    obtain ⟨o, ho, rfl⟩ := mem_map.1 hc
    refine ⟨o, ho, ?_⟩
    split
    · exact hkeep o
    · exact ⟨rfl, rfl, rfl⟩
  refine ⟨hs.issuers, ?_, ?_, hs.serving⟩
  · intro c hc hkind sid hsid i hi hid
    obtain ⟨o, ho, hk, hsp, hio⟩ := hrow c hc
    exact hs.certificates o ho (hk ▸ hkind) sid (hsp ▸ hsid) i hi (hio ▸ hid)
  intro c hc
  obtain ⟨o, ho, -, -, hio⟩ := hrow c hc
  rw [hio]
  exact hs.issued o ho

theorem rooted_insertCertificate (hs : s.Rooted P) {row : IssuedCertificate} {now : Time}
    (hissuer : (s.issuers.get? row.issuerID).isSome)
    (hins : s.certificates.insert? (row.stored now) = some s'.certificates)
    (hmints : row.kind ≠ some .generic → ∀ sid ∈ Csr.parseSPIFFEID P row.spiffeID,
      ∀ i ∈ s.issuers.rows, i.id = row.issuerID → i.MintsFor s.cas sid.trustDomain)
    (hissuers : s'.issuers = s.issuers) (hcas : s'.cas = s.cas) : s'.Rooted P := by
  have hrows := (insert?_eq_some hins).2
  constructor
  · unfold Anchored
    rw [hissuers, hcas]
    exact hs.issuers
  · rw [hrows, hissuers, hcas]
    intro c hc hkind
    rw [mem_append, mem_singleton] at hc
    rcases hc with hc | rfl
    · exact hs.certificates c hc hkind
    · refine hmints fun hgeneric => hkind ?_
      simp [IssuedCertificate.stored, defaultKind, hgeneric]
  · rw [hrows, hissuers]
    intro c hc
    rw [mem_append, mem_singleton] at hc
    rcases hc with hc | rfl
    · exact hs.issued c hc
    · obtain ⟨i, hi⟩ := Option.isSome_iff_exists.1 hissuer
      exact ⟨i, get?_mem hi, get?_key hi⟩
  · rw [hcas]
    exact hs.serving

/-- Issuers are rewritten: those that were there keep their CA, and those that are new are known to
no certificate. -/
theorem rooted_writeIssuers (hs : s.Rooted P)
    (hself : ∀ i ∈ s'.issuers.rows, i.type = .selfSigned → i.RootedIn s.cas i.trustDomain)
    (hca : ∀ i ∈ s'.issuers.rows, (∃ o ∈ s.issuers.rows, o.id = i.id ∧ i.caID = o.caID) ∨
      ∀ o ∈ s.issuers.rows, o.id ≠ i.id)
    (hkept : ∀ c ∈ s.certificates.rows, ∃ i ∈ s'.issuers.rows, i.id = c.issuerID)
    (hcertificates : s'.certificates = s.certificates) (hcas : s'.cas = s.cas) : s'.Rooted P := by
  constructor
  · unfold Anchored
    rw [hcas]
    exact hself
  · rw [hcertificates, hcas]
    intro c hc hkind sid hsid i hi hid
    rcases hca i hi with ⟨o, ho, hoid, hsame⟩ | hnew
    · exact mintsFor_congr hsame (hs.certificates c hc hkind sid hsid o ho (hoid.trans hid))
    · obtain ⟨o, ho, hoid⟩ := hs.issued c hc
      exact absurd (hoid.trans hid.symm) (hnew o ho)
  · rw [hcertificates]
    exact hkept
  · rw [hcas]
    exact hs.serving

/-! ## Transactions that write issuers -/

/-- The database in a transaction that has begun in `s₀`: the issuers of `s₀` are there still, with
the CA they had, and what is new is known to be. -/
structure Writing (P : Platform) (new : Issuer → Prop) (s₀ s : Database) : Prop where
  rooted : s.Rooted P
  cas : s.cas = s₀.cas
  kept : ∀ o ∈ s₀.issuers.rows, ∃ i ∈ s.issuers.rows, i.id = o.id
  old : ∀ i ∈ s.issuers.rows, ∀ o ∈ s₀.issuers.rows, o.id = i.id →
    i.caID = o.caID ∧ i.tenantID = o.tenantID
  new : ∀ i ∈ s.issuers.rows, (∀ o ∈ s₀.issuers.rows, o.id ≠ i.id) → new i

namespace Writing

variable {new : Issuer → Prop}

theorem refl (hs : s.Rooted P) : Writing P new s s where
  rooted := hs
  cas := rfl
  kept o ho := ⟨o, ho, rfl⟩
  old i hi o ho hid := by
    rw [eq_of_key_eq ho hi hid]
    exact ⟨rfl, rfl⟩
  new i hi hnew := absurd rfl (hnew i hi)

theorem other (h : Writing P new s₀ s) (hrooted : s'.Rooted P) (hissuers : s'.issuers = s.issuers)
    (hcas : s'.cas = s.cas) : Writing P new s₀ s' := by
  refine ⟨hrooted, hcas.trans h.cas, ?_, ?_, ?_⟩ <;> rw [hissuers]
  · exact h.kept
  · exact h.old
  · exact h.new

theorem map (h : Writing P new s₀ s) {f : Issuer → Issuer} (hf : ∀ i, (f i).id = i.id)
    (hissuers : s'.issuers.rows = s.issuers.rows.map f)
    (hkeep : ∀ i ∈ s.issuers.rows, (f i).caID = i.caID ∧ (f i).tenantID = i.tenantID)
    (hself : ∀ i ∈ s.issuers.rows, (f i).type = .selfSigned →
      (f i).RootedIn s.cas (f i).trustDomain)
    (hnew : ∀ i ∈ s.issuers.rows, new i → new (f i))
    (hcertificates : s'.certificates = s.certificates) (hcas : s'.cas = s.cas) :
    Writing P new s₀ s' := by
  have hrow : ∀ i ∈ s'.issuers.rows, ∃ o ∈ s.issuers.rows, i = f o := by
    intro i hi
    rw [hissuers] at hi
    obtain ⟨o, ho, rfl⟩ := mem_map.1 hi
    exact ⟨o, ho, rfl⟩
  have hback : ∀ o ∈ s.issuers.rows, f o ∈ s'.issuers.rows := by
    intro o ho
    rw [hissuers]
    exact mem_map_of_mem ho
  refine ⟨rooted_writeIssuers h.rooted ?_ ?_ ?_ hcertificates hcas, hcas.trans h.cas, ?_, ?_, ?_⟩
  · intro i hi htype
    obtain ⟨o, ho, rfl⟩ := hrow i hi
    exact hself o ho htype
  · intro i hi
    obtain ⟨o, ho, rfl⟩ := hrow i hi
    exact .inl ⟨o, ho, (hf o).symm, (hkeep o ho).1⟩
  · intro c hc
    obtain ⟨o, ho, hid⟩ := h.rooted.issued c hc
    exact ⟨f o, hback o ho, (hf o).trans hid⟩
  · intro o ho
    obtain ⟨i, hi, hid⟩ := h.kept o ho
    exact ⟨f i, hback i hi, (hf i).trans hid⟩
  · intro i hi o ho hid
    obtain ⟨i1, hi1, rfl⟩ := hrow i hi
    obtain ⟨hca, ht⟩ := hkeep i1 hi1
    rw [hca, ht]
    exact h.old i1 hi1 o ho (hid.trans (hf i1))
  intro i hi hno
  obtain ⟨i1, hi1, rfl⟩ := hrow i hi
  refine hnew i1 hi1 (h.new i1 hi1 fun o ho hid => hno o ho ?_)
  exact hid.trans (hf i1).symm

theorem insert (h : Writing P new s₀ s) {table : Table Issuer.id}
    (hins : s.issuers.insert? row = some table) (hnew : new row)
    (hself : row.type = .selfSigned → row.RootedIn s.cas row.trustDomain) :
    Writing P new s₀ { s with issuers := table } := by
  obtain ⟨hfresh, hrows⟩ := insert?_eq_some hins
  have hother : ∀ o ∈ s.issuers.rows, o.id ≠ row.id := get?_eq_none_iff.1 hfresh
  have hin : ∀ i, i ∈ table.rows ↔ i ∈ s.issuers.rows ∨ i = row := by
    intro i
    rw [hrows, mem_append, mem_singleton]
  refine ⟨rooted_writeIssuers h.rooted ?_ ?_ ?_ rfl rfl, h.cas, ?_, ?_, ?_⟩
  · intro i hi htype
    rcases (hin i).1 hi with hi | rfl
    · exact h.rooted.issuers i hi htype
    · exact hself htype
  · intro i hi
    rcases (hin i).1 hi with hi | rfl
    · exact .inl ⟨i, hi, rfl, rfl⟩
    · exact .inr hother
  · intro c hc
    obtain ⟨i, hi, hid⟩ := h.rooted.issued c hc
    exact ⟨i, (hin i).2 (.inl hi), hid⟩
  · intro o ho
    obtain ⟨i, hi, hid⟩ := h.kept o ho
    exact ⟨i, (hin i).2 (.inl hi), hid⟩
  · intro i hi o ho hid
    rcases (hin i).1 hi with hi | rfl
    · exact h.old i hi o ho hid
    · obtain ⟨i1, hi1, hid1⟩ := h.kept o ho
      exact absurd (hid1.trans hid) (hother i1 hi1)
  intro i hi hno
  rcases (hin i).1 hi with hi | rfl
  · exact h.new i hi hno
  · exact hnew

end Writing

section Holds

variable {new : Issuer → Prop}

theorem holds_clear (t : Id) (td : String) (id : Id)
    (hnew : ∀ i, new i → new (undefault t td id i)) :
    Tx.Holds (Writing P new s₀) (fun _ => True) (clearDefaultIssuer t td id) := by
  -- the default flag is all that changes
  have hsame : ∀ i, (undefault t td id i).caID = i.caID ∧
      (undefault t td id i).tenantID = i.tenantID ∧
      (undefault t td id i).type = i.type ∧
      (undefault t td id i).trustDomain = i.trustDomain := by
    intro i
    unfold undefault
    split <;> exact ⟨rfl, rfl, rfl, rfl⟩
  refine holds_clearDefaultIssuer fun s hs =>
    hs.map (undefault_id t td id) rfl (fun i _ => ⟨(hsame i).1, (hsame i).2.1⟩) ?_
      (fun i _ => hnew i) rfl rfl
  intro i hi htype
  obtain ⟨hca, ht, hty, htd⟩ := hsame i
  rw [htd]
  exact rootedIn_congr hca ht (hs.rooted.issuers i hi (hty ▸ htype))

theorem holds_update
    (hca : ∀ s, Writing P new s₀ s → ∀ i ∈ s.issuers.rows, i.id = row.id → row.caID = i.caID)
    (hself : row.type = .selfSigned → row.RootedIn s₀.cas row.trustDomain)
    (hnew : ∀ i, new i → row.caID = i.caID → new (row.write i)) :
    Tx.Holds (Writing P new s₀) (fun _ => True) (updateIssuer P row) := by
  refine holds_updateIssuer fun s old hs hget htenant _ _ => ?_
  have hid : ∀ i ∈ s.issuers.rows, i.id = row.id → i = old := fun i hi hkey =>
    eq_of_key_eq hi (get?_mem hget) (hkey.trans (get?_key hget).symm)
  refine hs.map (fun i => ?_) rfl ?_ ?_ ?_ rfl rfl
  · split <;> rfl
  · intro i hi
    split
    · next hkey => exact ⟨hca s hs i hi hkey, rfl⟩
    · exact ⟨rfl, rfl⟩
  · intro i hi
    split
    · next hkey =>
      intro htype
      obtain rfl := hid i hi hkey
      have hroot : row.RootedIn s₀.cas row.trustDomain := hself htype
      rw [hs.cas]
      exact rootedIn_congr (o := row) rfl htenant hroot
    · exact hs.rooted.issuers i hi
  · intro i hi hn
    split
    · next hkey => exact hnew i hn (hca s hs i hi hkey)
    · exact hn

theorem holds_insert (hnew : new { row with updatedBy := row.createdBy })
    (hself : row.type = .selfSigned → row.RootedIn s₀.cas row.trustDomain) :
    Tx.Holds (Writing P new s₀) (fun _ => ∀ o ∈ s₀.issuers.rows, o.id ≠ row.id)
      (insertIssuer P row) := by
  refine holds_insertIssuer fun s table hs _ _ hins => ⟨hs.insert hins hnew ?_, ?_⟩
  · intro htype
    rw [hs.cas]
    exact hself htype
  intro o ho hid
  obtain ⟨i, hi, hio⟩ := hs.kept o ho
  exact get?_eq_none_iff.1 (insert?_eq_some hins).1 i hi (hio.trans hid)

theorem writing_grants (s : Database) (table : Table Grant.id) (h : Writing P new s₀ s) :
    Writing P new s₀ { s with grants := table } :=
  h.other (rooted_congr h.rooted rfl rfl rfl) rfl rfl

end Holds

/-! ## The transactions of the calls -/

section Transactions

variable {e : Env}

theorem writing_createTx (hs : s.Rooted P) {subj : Subjects}
    (hself : row.type = .selfSigned → row.RootedIn s.cas row.trustDomain)
    (htx : transact (createTx P subj row) e s = (r, s')) :
    Writing P (fun i => i.id = row.id) s s' := by
  refine inv_of_transact (holds_createTx (fun _ => ?_) ?_ writing_grants) htx (Writing.refl hs)
  · refine holds_clear _ _ _ fun i hi => ?_
    rw [undefault_id]
    exact hi
  · exact Tx.Holds.mono (fun _ _ => trivial) (holds_insert rfl hself)

theorem writing_updateTx (hs : s.Rooted P) {wasDefault : Bool}
    (hca : ∀ i ∈ s.issuers.rows, i.id = row.id → i.caID = row.caID)
    (hself : row.type = .selfSigned → row.RootedIn s.cas row.trustDomain)
    (htx : transact (updateTx P wasDefault row) e s = (r, s')) :
    Writing P (fun _ => False) s s' := by
  refine inv_of_transact (holds_updateTx (fun _ => holds_clear _ _ _ fun _ h => h) ?_) htx
    (Writing.refl hs)
  refine holds_update ?_ hself fun _ h _ => h
  intro s1 hs1 i hi hid
  by_cases hold : ∃ o ∈ s.issuers.rows, o.id = i.id
  · obtain ⟨o, ho, hoid⟩ := hold
    rw [(hs1.old i hi o ho hoid).1]
    exact (hca o ho (hoid.trans hid)).symm
  · exact (hs1.new i hi fun o ho hoid => hold ⟨o, ho, hoid⟩).elim

theorem rooted_deleteTx (hs : s.Rooted P) (htx : transact (deleteTx t id) e s = (r, s')) :
    s'.Rooted P ∧ ∀ i ∈ s'.issuers.rows, i ∈ s.issuers.rows := by
  refine inv_of_transact (I := fun x => x.Rooted P ∧ ∀ i ∈ x.issuers.rows, i ∈ s.issuers.rows)
    (holds_deleteTx (holds_deleteIssuer ?_) ?_) htx ⟨hs, fun _ hi => hi⟩
  · intro s1 ⟨hs1, hsub⟩ hfree
    have hold : ∀ i ∈ (s1.issuers.filter fun i => !(i.id == id)).rows, i ∈ s1.issuers.rows :=
      fun i hi => (mem_filter.1 hi).1
    refine ⟨rooted_writeIssuers hs1 ?_ ?_ ?_ rfl rfl, fun i hi => hsub i (hold i hi)⟩
    · exact fun i hi htype => hs1.issuers i (hold i hi) htype
    · exact fun i hi => .inl ⟨i, hold i hi, rfl, rfl⟩
    intro c hc
    obtain ⟨i, hi, hid⟩ := hs1.issued c hc
    refine ⟨i, mem_filter.2 ⟨hi, ?_⟩, hid⟩
    simpa [hid] using hfree c hc
  · rintro s1 table ⟨hs1, hsub⟩
    exact ⟨rooted_congr hs1 rfl rfl rfl, hsub⟩

/-! ### Imports -/

variable {subj : Subjects} {doc : Transfer.Document} {mode name : String} {idx : Transfer.Index}

/-- The index of names during an import: names that were there before lead where they led, and
others to issuers that are new. -/
structure Indexed (P : Platform) (s₀ : Database) (t : Id) (idx : Transfer.Index) : Prop where
  missing : ∀ name, idx.lookup name = none → (Transfer.issuerIndex P s₀ t).lookup name = none
  found : ∀ name id, idx.lookup name = some id →
    (Transfer.issuerIndex P s₀ t).lookup name = some id ∨
      (Transfer.issuerIndex P s₀ t).lookup name = none ∧ ∀ o ∈ s₀.issuers.rows, o.id ≠ id

theorem Indexed.cons (h : Indexed P s₀ t idx) (hname : idx.lookup name = none)
    (hnew : ∀ o ∈ s₀.issuers.rows, o.id ≠ id) : Indexed P s₀ t ((name, id) :: idx) := by
  constructor
  · intro x hx
    rw [lookup_cons] at hx
    split at hx
    · cases hx
    · exact h.missing x hx
  intro x y hx
  rw [lookup_cons] at hx
  split at hx
  · next heq =>
    cases hx
    rw [eq_of_beq heq]
    exact .inr ⟨h.missing name hname, hnew⟩
  · exact h.found x y hx

theorem issuer_of_lookup (h : (Transfer.issuerIndex P s₀ t).lookup name = some id) :
    ∃ o ∈ s₀.issuers.rows, o.tenantID = t ∧ o.id = id ∧ P.toLower o.name = name :=
  Transfer.indexesIssuers_index s₀ t _ (Transfer.mem_of_lookup h)

theorem leads_importIssuers (hs0 : s₀.Rooted P)
    (hdoc : ImportAnchored P s₀ subj.tenantID doc mode) :
    Tx.Leads (fun s => s = s₀) (Writing P (fun i => i.caID = none) s₀)
      (fun acc => Indexed P s₀ subj.tenantID acc.1)
      (Transfer.importIssuers P subj doc mode .empty) := by
  refine Transfer.leads_importIssuers
    (W := fun id row => row.id = id ∧ (∀ o ∈ s₀.issuers.rows, o.id = id →
      row.caID = o.caID ∧ row.tenantID = o.tenantID) ∧
      ((∀ o ∈ s₀.issuers.rows, o.id ≠ id) → row.caID = none)) .empty ?_ ?_ ?_ ?_
  · rintro _ rfl
    exact ⟨Writing.refl hs0, fun _ h => h, fun _ _ h => .inl h⟩
  · intro id
    refine Tx.Holds.query fun s row hs hget => ?_
    have hrow := (Option.filter_eq_some_iff.1 (found_eq_ok.1 hget)).1
    obtain rfl : row.id = id := get?_key hrow
    exact ⟨rfl, hs.old row (get?_mem hrow), hs.new row (get?_mem hrow)⟩
  · rintro idx di _ row blob shown hidx hdi hmode hlook ⟨rfl, hold, hnew⟩
    refine holds_update ?_ ?_ fun i hi hsame => hsame.trans hi
    · -- the row that was read has the CA of the one that is stored
      intro s hs i hi hid
      by_cases hthere : ∃ o ∈ s₀.issuers.rows, o.id = i.id
      · obtain ⟨o, ho, hoid⟩ := hthere
        rw [(hs.old i hi o ho hoid).1]
        exact (hold o ho (hoid.trans hid)).1
      have hno : ∀ o ∈ s₀.issuers.rows, o.id ≠ i.id := fun o ho hoid => hthere ⟨o, ho, hoid⟩
      rw [hs.new i hi hno]
      exact hnew fun o ho hoid => hno o ho (hoid.trans hid.symm)
    · intro htype
      obtain ⟨hfound, hroot⟩ := hdoc.1 di hdi htype
      rcases hidx.found _ _ hlook with hlook0 | ⟨hnone, -⟩
      · obtain ⟨o, ho, ht, hid, hname⟩ := issuer_of_lookup hlook0
        obtain ⟨hca, hten⟩ := hold o ho hid
        exact rootedIn_congr (o := o) hca hten (hroot hmode o ho ht hname)
      · exact absurd hnone hfound
  · intro idx di id blob shown hidx hdi hlook
    refine Tx.Holds.mono (fun _ hnew => hidx.cons hlook hnew) (holds_insert rfl ?_)
    intro htype
    exact absurd (hidx.missing _ hlook) (hdoc.1 di hdi htype).1

theorem holds_importCertificate (hdoc : ImportAnchored P s₀ subj.tenantID doc mode)
    (hidx : Indexed P s₀ subj.tenantID idx) {dc : Transfer.DocCertificate}
    (hdc : dc ∈ doc.certificates) {issuerID : Id}
    (hissuer : idx.lookup (P.toLower dc.issuer) = some issuerID) :
    Tx.Holds (Writing P (fun i => i.caID = none) s₀) (fun _ => True)
      (insertCertificate (Transfer.importedRow subj issuerID id dc)) := by
  refine Tx.Holds.bind (Q := fun _ => True) (Tx.Holds.ask fun _ => trivial) fun now _ => ?_
  refine holds_checked fun _ => holds_insertRow fun s table hs hv hins => ⟨?_, trivial⟩
  simp only [Bool.or_eq_false_iff, Option.isNone_eq_false_iff] at hv
  refine hs.other (rooted_insertCertificate hs.rooted hv.1 hins ?_ rfl rfl) rfl rfl
  intro _ sid hsid i hi hid
  rw [hs.cas]
  rcases hidx.found _ _ hissuer with hlook | ⟨-, hno⟩
  · obtain ⟨o, ho, ht, hoid, hname⟩ := issuer_of_lookup hlook
    have hsame := (hs.old i hi o ho (hoid.trans hid.symm)).1
    exact mintsFor_congr hsame (hdoc.2 dc hdc sid hsid o ho ht hname)
  · exact .inl (hs.new i hi fun o ho hoid => hno o ho (hoid.trans hid))

theorem writing_importTx (hs : s.Rooted P) (hdoc : ImportAnchored P s subj.tenantID doc mode)
    {r : Except Err Transfer.Report}
    (htx : transact (Transfer.importTx P subj doc mode) e s = (r, s')) :
    Writing P (fun i => i.caID = none) s s' := by
  have hlead : Tx.Leads (fun x => x = s) (Writing P (fun i => i.caID = none) s) (fun _ => True)
      (Transfer.importTx P subj doc mode) := by
    refine Transfer.leads_importTx (leads_importIssuers hs hdoc) ?_ writing_grants
      fun _ _ h => h.other (rooted_congr h.rooted rfl rfl rfl) rfl rfl
    intro idx rep hidx
    refine Transfer.holds_importCertificates rep ?_ fun dc issuerID id hdc hissuer =>
      holds_importCertificate hdoc hidx hdc hissuer
    intro _ s1 id c hs1
    exact hs1.other (rooted_mapCertificate hs1.rooted fun _ => ⟨rfl, rfl, rfl⟩) rfl rfl
  cases r with
  | error err =>
    rw [eq_of_transact_error htx]
    exact Writing.refl hs
  | ok rep =>
    obtain ⟨ss, hm, rfl⟩ := ok_of_transact htx
    have hrun := (hlead e ⟨s, false, 0⟩ rfl).1
    rwa [hm] at hrun

end Transactions

/-! ## Steps -/

/-- Every issuer has the CA it had, or none, or an id of which no call knows. -/
def Holding (ids : List Id) (s s' : Database) : Prop :=
  ∀ i ∈ s'.issuers.rows, (∃ o ∈ s.issuers.rows, o.id = i.id ∧ i.caID = o.caID) ∨
    i.caID = none ∨ i.id ∉ ids

theorem Writing.holding {new : Issuer → Prop} {ids : List Id} (h : Writing P new s s')
    (hnew : ∀ i, new i → i.caID = none ∨ i.id ∉ ids) : Holding ids s s' := by
  intro i hi
  by_cases hold : ∃ o ∈ s.issuers.rows, o.id = i.id
  · obtain ⟨o, ho, hid⟩ := hold
    exact .inl ⟨o, ho, hid, (h.old i hi o ho hid).1⟩
  · exact .inr (hnew i (h.new i hi fun o ho hid => hold ⟨o, ho, hid⟩))

section Runs

variable {db : Database} {as : List SysAct} {n j : Nat} {c : Call} {h : Trail Ev} {e : Env}
  {ev : Ev} {issuer : Issuer}

/-- The issuers that the calls have read by then. -/
def known (P : Platform) (db : Database) (as : List SysAct) (m : Nat) : List Id :=
  (runFrom P db (as.take m)).events.filterMap Ev.issuerID?

theorem issuers_step (hcalls : ∀ a ∈ as, a.Calls Call.OnIssuance)
    (hcond : AllMeet P (KeepsAnchors P) db as)
    (hat : StepAt P db as Call.OnIssuance n j c h e ev)
    (hR : ∀ k ≤ n, (storeAt P db as k).Rooted P) (hev : ev.WritesIssuers) :
    (storeAt P db as (n + 1)).Rooted P ∧
      Holding (known P db as n) (storeAt P db as n) (storeAt P db as (n + 1)) := by
  have hkeep := hat.meets hcond ev hat.emits
  have hbec := hat.does.because
  have hs := hR n (Nat.le_refl n)
  have hmono : ∀ k ≤ n, ∀ ca ∈ (storeAt P db as k).cas.rows, ca ∈ (storeAt P db as n).cas.rows :=
    fun k hk ca hca => cas_mono (fun _ h => h) hcalls hk (Nat.le_of_lt hat.lt) hca
  cases ev with
  | insertIssuer row r =>
    obtain ⟨-, subj, input, id, type, caID, blob, shown, -, -, rfl, hca, htx⟩ := hbec
    have hw := writing_createTx hs (fun htype => ?_) htx
    · refine ⟨hw.rooted, hw.holding fun i hid => .inr ?_⟩
      rw [hid]
      exact hkeep
    · -- the CA has been ensured before
      obtain ⟨ca, k, hid, hens⟩ := hca htype
      obtain ⟨ht, htd, createdAt, hstored⟩ :=
        stored_of_ensured (fun _ h => h) hcalls hat.trail hens
      have hk : k + 1 ≤ n := by
        rcases hens with hsaw | hmem
        · exact Saw.before hsaw hat.trail
        · exact hat.trail.early _ hmem
      exact ⟨_, hmono _ hk _ hstored, hid, ht, htd⟩
  | updateIssuer row r =>
    obtain ⟨-, subj, id, input, old, blob, shown, k, -, hold, rfl, htx⟩ := hbec
    have hw := writing_updateTx hs hkeep (fun htype => ?_) htx
    · exact ⟨hw.rooted, hw.holding fun _ hno => hno.elim⟩
    · -- what was read then was anchored then
      obtain ⟨_, _, _, hfor⟩ := Saw.at hold
      have hk := Nat.le_of_lt (Saw.before hold hat.trail)
      have hroot := (hR k hk).issuers old (issuerFor_mem hfor).1 htype
      exact rootedIn_congr (o := old) rfl rfl (rootedIn_mono (hmono k hk) hroot)
  | deleteIssuer t id r =>
    obtain ⟨hrooted, hsub⟩ := rooted_deleteTx hs hbec.2
    exact ⟨hrooted, fun i hi => .inl ⟨i, hsub i hi, rfl, rfl⟩⟩
  | importBackup t doc mode r =>
    obtain ⟨subj, -, rfl, htx⟩ := hbec
    have hw := writing_importTx hs hkeep htx
    exact ⟨hw.rooted, hw.holding fun _ hnone => .inl hnone⟩
  | _ => exact hev.elim

/-- The issuer has this CA, or none. -/
def Pinned (x : Id) (caID : Option Id) (s : Database) : Prop :=
  ∀ i ∈ s.issuers.rows, i.id = x → i.caID = caID ∨ i.caID = none

theorem pinned_self (hi : i ∈ s.issuers.rows) :
    Pinned i.id i.caID s := fun o ho hid => .inl (by rw [eq_of_key_eq ho hi hid])

theorem pinned_later (hcalls : ∀ a ∈ as, a.Calls Call.OnIssuance)
    (hcond : AllMeet P (KeepsAnchors P) db as) {x : Id} {caID : Option Id}
    (hat : StepAt P db as Call.OnIssuance k j c h e ev) (hx : ev.issuerID? = some x)
    (hp : Pinned x caID (storeAt P db as k)) (hkn : k < n) (hn : n ≤ as.length)
    (hR : ∀ m < n, (storeAt P db as m).Rooted P) : Pinned x caID (storeAt P db as n) := by
  induction hkn with
  | refl =>
    -- the read itself
    have hsame : storeAt P db as (k + 1) = storeAt P db as k := by
      have heff := hat.does.effect
      unfold Ev.issuerID? at hx
      split at hx
      · exact heff
      · exact heff.1
      · cases hx
    rwa [hsame]
  | @step n hkn ih =>
    have hn' := Nat.le_of_succ_le hn
    have hold := ih hn' fun m hm => hR m (Nat.lt_succ_of_lt hm)
    rcases moved (fun _ h => h) hcalls P db hn with hsame | ⟨j', c', h', e', ev', -, hat'⟩
    · rwa [hsame]
    by_cases hev : ev'.WritesIssuers
    · have hhold := (issuers_step hcalls hcond hat' (fun m hm => hR m (Nat.lt_succ_of_le hm))
        hev).2
      intro i hi hid
      rcases hhold i hi with ⟨o, ho, hoid, hsame⟩ | hnone | hnew
      · rw [hsame]
        exact hold o ho (hoid.trans hid)
      · exact .inr hnone
      refine absurd ?_ hnew
      rw [hid]
      exact mem_filterMap.2 ⟨ev, hat.mem_events hkn, hx⟩
    · unfold Pinned
      rw [hat'.does.issuers_eq hev]
      exact hold

/-- The issuer that a certificate is minted from references a CA of the certificate's trust
domain. -/
theorem mintsFor_of_chosen (hcalls : ∀ a ∈ as, a.Calls Call.OnIssuance)
    (hcond : AllMeet P (KeepsAnchors P) db as) (hn : n ≤ as.length)
    (hR : ∀ m < n, (storeAt P db as m).Rooted P) (hT : TrailOf P db as Call.OnIssuance n j c h)
    {sid : Csr.SPIFFEID} (hchosen : Chosen P (At P db as) c h t sid issuer k)
    (htype : issuer.type = .selfSigned) :
    issuer.MintsFor (storeAt P db as k).cas sid.trustDomain := by
  cases hchosen with
  | asked want hread hdomain _ _ =>
    obtain ⟨_, _, _, hfor⟩ := Saw.at hread
    have hroot := (hR k (Saw.before hread hT)).issuers issuer (issuerFor_mem hfor).1 htype
    rw [hdomain] at hroot
    obtain ⟨ca, hca, hid, -, htd⟩ := hroot
    exact .inr ⟨ca, hca, hid, htd⟩
  | renewed old id k0 hk hget hold hread hsid hkind _ =>
    obtain ⟨_, _, _, hfor⟩ := Saw.at hread
    obtain ⟨_, _, _, hcert⟩ := Saw.at hold
    have hkn := Saw.before hread hT
    have hissuer : issuer.id = old.issuerID :=
      get?_key (Option.filter_eq_some_iff.1 hfor).1
    -- the issuer as it was when the certificate was read
    have hR0 := hR k0 (Nat.lt_trans hk hkn)
    have hstored := (certificate?_eq_some.1 hcert).1
    obtain ⟨o, ho, hoid⟩ := hR0.issued old hstored
    have hmints := hR0.certificates old hstored hkind sid hsid o ho hoid
    obtain ⟨_, _, -, hat⟩ := stepAt_of_mem hT hget
    have hpin : Pinned o.id o.caID (storeAt P db as k) :=
      pinned_later hcalls hcond hat (congrArg some hoid.symm) (pinned_self ho) hk
        (Nat.le_trans (Nat.le_of_lt hkn) hn) fun m hm => hR m (Nat.lt_trans hm hkn)
    rcases hpin issuer (issuerFor_mem hfor).1 (hissuer.trans hoid.symm) with hca | hnone
    · refine mintsFor_congr hca (mintsFor_mono (fun ca hca => ?_) hmints)
      exact cas_mono (fun _ h => h) hcalls (Nat.le_of_lt hk)
        (Nat.le_trans (Nat.le_of_lt hkn) hn) hca
    · exact .inl hnone

theorem readBack_of_chosen (hP : P.ReadsBack) {may : Nat → Env → Database → Prop}
    {sid sid' : Csr.SPIFFEID} (hchosen : Chosen P may c h t sid issuer k)
    (hsid : Csr.parseSPIFFEID P sid.string = some sid') : sid'.trustDomain = sid.trustDomain := by
  cases hchosen with
  | asked _ _ _ htext _ =>
    obtain ⟨text, htext⟩ := htext
    exact hP text sid sid' htext hsid
  | renewed old _ _ _ _ _ _ htext _ _ => exact hP old.spiffeID sid sid' htext hsid

theorem certificate_step (hP : P.ReadsBack) (hcalls : ∀ a ∈ as, a.Calls Call.OnIssuance)
    (hcond : AllMeet P (KeepsAnchors P) db as) {row : IssuedCertificate}
    (hat : StepAt P db as Call.OnIssuance n j c h e (.insertCertificate row r))
    (hR : ∀ k ≤ n, (storeAt P db as k).Rooted P) : (storeAt P db as (n + 1)).Rooted P := by
  have hs := hR n (Nat.le_refl n)
  have heff := hat.does.effect
  obtain ⟨hst, issuer, k, hread, hissuer, hstored, hsource⟩ := hat.does.because
  cases r with
  | error err =>
    rw [show storeAt P db as (n + 1) = storeAt P db as n from heff]
    exact hs
  | ok _ =>
    obtain ⟨now, hins⟩ := heff.table
    have hcas : (storeAt P db as (n + 1)).cas = (storeAt P db as n).cas := by
      obtain ⟨_, _, _, hst⟩ := hst
      rw [hst]
    refine rooted_insertCertificate hs heff.issuer hins ?_ heff.issuers hcas
    intro hkind sid hsid i hi hid
    rcases hsource with ⟨hgeneric, -⟩ | ⟨-, htype, sid', hspiffe, hchosen⟩
    · exact absurd hgeneric hkind
    rw [hspiffe] at hsid
    rw [readBack_of_chosen hP hchosen hsid]
    have hlt := fun m (hm : m < n) => hR m (Nat.le_of_lt hm)
    have hmints := mintsFor_of_chosen hcalls hcond (Nat.le_of_lt hat.lt) hlt hat.trail hchosen htype
    have hkn := Saw.before hstored hat.trail
    -- the issuer is still as it was when the call read it
    obtain ⟨_, _, -, hatk⟩ := stepAt_of_mem hat.trail hread
    obtain ⟨_, _, _, hmem, -⟩ := Saw.at hstored
    have hpin := pinned_later hcalls hcond hatk rfl (pinned_self hmem) hkn (Nat.le_of_lt hat.lt)
      hlt
    rcases hpin i hi (hid.trans hissuer) with hca | hnone
    · refine mintsFor_congr hca (mintsFor_mono (fun ca hca => ?_) hmints)
      exact cas_mono (fun _ h => h) hcalls (Nat.le_of_lt hkn) (Nat.le_of_lt hat.lt) hca
    · exact .inl hnone

theorem rooted_step (hP : P.ReadsBack) (hcalls : ∀ a ∈ as, a.Calls Call.OnIssuance)
    (hcond : AllMeet P (KeepsAnchors P) db as)
    (hat : StepAt P db as Call.OnIssuance n j c h e ev)
    (hR : ∀ k ≤ n, (storeAt P db as k).Rooted P) : (storeAt P db as (n + 1)).Rooted P := by
  have hs := hR n (Nat.le_refl n)
  have heff := hat.does.effect
  cases hat.does.footprint with
  | nothing hsame => rwa [hsame]
  | worked _ hw =>
    obtain ⟨_, _, _, hw⟩ := hw
    rw [hw]
    exact rooted_congr hs rfl rfl rfl
  | ensured t td r hev hw =>
    rcases hat.does.cas_cases with hsame | ⟨_, _, ca, -, hgen, hins⟩
    · obtain ⟨_, hw⟩ := hw
      rw [hw] at hsame ⊢
      exact rooted_congr hs rfl rfl hsame
    obtain ⟨_, hw⟩ := hw
    have hstate : ({ ca with createdAt := e.dbNow } : CA).state = .active := hgen.state
    exact rooted_addCA hs hstate hins (by rw [hw]) (by rw [hw])
  | issuers hev => exact (issuers_step hcalls hcond hat hR hev).1
  | stored hev _ =>
    cases ev with
    | insertCertificate row r => exact certificate_step hP hcalls hcond hat hR
    | markKeyDelivered t id r | setCertificateStatus t id st sup r =>
      cases r with
      | error err => rwa [show storeAt P db as (n + 1) = storeAt P db as n from heff]
      | ok _ =>
        rw [heff.2]
        exact rooted_mapCertificate hs fun _ => ⟨rfl, rfl, rfl⟩
    | _ => exact hev.elim

theorem rooted_storeAt (hP : P.ReadsBack) (hdb : db.Rooted P)
    (hcalls : ∀ a ∈ as, a.Calls Call.OnIssuance) (hcond : AllMeet P (KeepsAnchors P) db as)
    (n : Nat) (hn : n ≤ as.length) : (storeAt P db as n).Rooted P := by
  induction n using Nat.strong_induction_on with
  | _ n ih =>
    cases n with
    | zero => exact hdb
    | succ n =>
      have hR : ∀ k ≤ n, (storeAt P db as k).Rooted P := fun k hk =>
        ih k (Nat.lt_succ_of_le hk) (Nat.le_trans hk (Nat.le_of_succ_le hn))
      rcases moved (fun _ h => h) hcalls P db hn with hsame | ⟨j, c, h, e, ev, -, hat⟩
      · rw [hsame]
        exact hR n (Nat.le_refl n)
      · exact rooted_step hP hcalls hcond hat hR

theorem chainsInto_of_chained (hP : P.ReadsBack) (hdb : db.Rooted P)
    (hcalls : ∀ a ∈ as, a.Calls Call.OnIssuance) (hcond : AllMeet P (KeepsAnchors P) db as)
    (hT : TrailOf P db as Call.OnIssuance as.length j c h)
    (hchain : Chained P (At P db as) c h b.certPEM b.chainPEM b.bundlePEM) :
    ChainsInto P (runFrom P db as).store b := by
  obtain ⟨t, sid, issuer, k0, caID, ca, k1, cas, k2, hchosen, htype, hcaID, hk1, hread, hk2, hcas,
    hsigned, -, hbundle⟩ := hchain
  obtain ⟨_, _, _, hget⟩ := Saw.at hread
  obtain ⟨_, _, _, hlist⟩ := Saw.at hcas
  have hR := rooted_storeAt hP hdb hcalls hcond
  have hlen : k2 < as.length := Saw.before hcas hT
  have hmono : ∀ {k}, k ≤ k1 → ∀ x ∈ (storeAt P db as k).cas.rows,
      x ∈ (storeAt P db as k1).cas.rows := fun hk x hx =>
    cas_mono (fun _ h => h) hcalls hk (by omega) hx
  -- the CA of the issuer is one of the trust domain of the bundle
  obtain ⟨hca, htenant, rfl⟩ := mem_of_getCA hget
  have hmints := mintsFor_of_chosen hcalls hcond (Nat.le_refl _)
    (fun m hm => hR m (Nat.le_of_lt hm)) hT hchosen htype
  have htd : ca.trustDomain = sid.trustDomain :=
    trustDomain_of_mintsFor (mintsFor_mono (hmono (Nat.le_of_lt hk1)) hmints) hca hcaID
  have hca2 : ca ∈ (storeAt P db as k2).cas.rows :=
    cas_mono (fun _ h => h) hcalls (Nat.le_of_lt hk2) (Nat.le_of_lt hlen) hca
  refine ⟨_, fun x hx => ?_, hbundle, ca, ?_, hsigned⟩
  · have hx2 := ((mem_casForDomain hlist).1 (mem_filter.1 hx).1).1
    rw [← storeAt_length]
    exact cas_mono (fun _ h => h) hcalls (Nat.le_of_lt hlen) (Nat.le_refl _) hx2
  · refine mem_filter.2 ⟨(mem_casForDomain hlist).2 ⟨hca2, htenant, htd⟩, ?_⟩
    rcases (hR k2 (Nat.le_of_lt hlen)).serving ca hca2 with hstate | hstate <;> simp [hstate]

end Runs

end Anchors

open Anchors

/-- In every run whose steps leave the anchors alone, every issuer that mints references a CA of
its tenant and its trust domain, and what is minted chains to a root of the bundle it is returned
with. -/
theorem issuers_anchored {P : Platform} {db : Database} {as : List SysAct} (hP : P.ReadsBack)
    (hdb : db.Rooted P) (hcalls : ∀ a ∈ as, a.Calls Call.OnIssuance)
    (hcond : AllMeet P (KeepsAnchors P) db as) :
    (runFrom P db as).store.Anchored ∧ AllChain P (runFrom P db as) := by
  constructor
  · rw [← storeAt_length]
    exact (rooted_storeAt hP hdb hcalls hcond as.length (Nat.le_refl _)).issuers
  intro t ht hmints b hret
  obtain ⟨j, hj⟩ := mem_iff_getElem?.1 ht
  obtain ⟨-, h, hmap, hT, hpost⟩ := trailed (fun _ h => h) hcalls hj
  rcases hpost _ hret b rfl with hchain | ⟨_, _, _, _, _, _, _, horder⟩ | ⟨hrenews, horder⟩
  · exact chainsInto_of_chained hP hdb hcalls hcond hT hchain
  · -- an order is neither `Issue` nor a renewal
    rcases hmints with ⟨_, _, hcall⟩ | ⟨hcall, -⟩
    · rw [horder] at hcall
      cases hcall
    · rw [horder] at hcall
      exact hcall.elim
  rcases hmints with ⟨_, _, hcall⟩ | ⟨-, hnone⟩
  · rw [hcall] at hrenews
    exact hrenews.elim
  obtain ⟨k, t', id, old, hev, hkind⟩ := horder
  have hload : (Ev.getCertificate t' id (.ok old)).loadsGeneric = true := by
    simp [Ev.loadsGeneric, hkind]
  have hmem : Ev.getCertificate t' id (.ok old) ∈ t.hist := by
    rw [← hmap]
    exact mem_map.2 ⟨_, hev, rfl⟩
  exact absurd hload (any_eq_false.1 hnone _ hmem)

/-! ## Runs -/

theorem bundlePEM_ne_of_chainsInto {P : Platform} (h : ChainsInto P s b)
    (hpem : ∀ ca ∈ s.cas.rows, ca.certPEM ≠ "") : b.bundlePEM ≠ "" := by
  obtain ⟨roots, hstored, hbundle, ca, hca, -⟩ := h
  intro hempty
  refine hpem ca (hstored ca hca) ?_
  have hall : ∀ r ∈ roots, r.certPEM = "" := by
    simpa [← String.toList_eq_nil_iff, hempty, eq_comm (a := ([] : List Char))] using
      congrArg String.toList hbundle
  exact hall ca hca

namespace Sample

theorem platform_readsBack : platform.ReadsBack := by
  intro text id id' h h'
  obtain ⟨-, -, -, u, hu, -, -, -, -, -, rfl⟩ := Csr.parseSPIFFEID_eq_some.1 h
  obtain ⟨-, -, -, u', hu', -, -, -, -, -, rfl⟩ := Csr.parseSPIFFEID_eq_some.1 h'
  -- the host is what stands before the first slash
  have hhost : ∀ (s : String) (v : Url), urlParse s = some v →
      v.hostname = String.ofList ((s.toList.drop 9).takeWhile (· != '/')) := by
    intro s v hv
    unfold urlParse at hv
    split at hv
    · cases hv
      rfl
    · cases hv
  have hfree : ∀ c ∈ u.hostname.toList, (c != '/') = true := by
    rw [hhost _ _ hu, String.toList_ofList]
    intro c hc
    exact mem_takeWhile_imp (p := (· != '/')) hc
  rw [hhost _ _ hu']
  have hdrop : (Csr.SPIFFEID.string ⟨u.hostname, Csr.trimSlash u.path, text⟩).toList.drop 9 =
      u.hostname.toList ++ '/' :: (Csr.trimSlash u.path).toList := by
    simp [Csr.SPIFFEID.string]
  rw [hdrop, takeWhile_append_of_pos hfree, takeWhile_cons_of_neg (by simp),
    append_nil, String.ofList_toList]

/-- A minting issuer for the trust domain `td`. -/
def mainInput : IssuerInput := ⟨"main", "self_signed", "td", true, true, "", "", "", .empty⟩

/-- A backup with this issuer for the given trust domain. -/
def backupOf (trustDomain : String) : Transfer.Document :=
  ⟨1, 0, 1, false, [⟨"main", .selfSigned, trustDomain, true, .empty, .empty⟩], [], [], []⟩

/-- The issuer is created, the backup restored over it, and a certificate of the trust domain
issued. -/
def restoredOver (trustDomain : String) : List SysAct :=
  .spawn (.createIssuer admin mainInput) :: steps 0 12 20 ++
    .spawn (.importBackup admin (backupOf trustDomain) "overwrite") :: steps 1 2 40 ++
      .spawn (.issue admin ⟨none, "spiffe://" ++ trustDomain ++ "/a", "", "a", [], 3600, true,
        false⟩) :: steps 2 19 60

def lastBundle (cfg : SysConfig) : Option Bundle :=
  match outcome? cfg 2 with
  | some (.issue _ _, .bundle b) => some b
  | _ => none

theorem returned_of_lastBundle {cfg : SysConfig} (h : lastBundle cfg = some b) :
    ∃ t ∈ cfg.threads, MintsAlone t ∧ Returned t (.bundle b) := by
  unfold lastBundle at h
  split at h
  · next subj input b' hout =>
    cases h
    obtain ⟨t, ht, hcall, hret⟩ := returned_of_outcome? hout
    exact ⟨t, ht, .inl ⟨subj, input, hcall⟩, hret⟩
  · cases h

end Sample

open Sample

/-- An overwrite gives the issuer another trust domain and leaves it its CA; what it mints comes
with an empty bundle. -/
theorem import_moves_issuer :
    ¬(runFrom platform .empty (restoredOver "other")).store.Anchored ∧
      ¬AllChain platform
        (runFrom platform .empty (restoredOver "other")) := by
  refine ⟨by decide +kernel, fun hall => ?_⟩
  have hlast : ((lastBundle (runFrom platform .empty
      (restoredOver "other"))).any fun b => b.bundlePEM == "") = true := by decide +kernel
  obtain ⟨b, hb, hempty⟩ := (Option.any_eq_true _ _).1 hlast
  obtain ⟨t, ht, hmints, hret⟩ := returned_of_lastBundle hb
  exact bundlePEM_ne_of_chainsInto (hall t ht hmints b hret) (by decide +kernel)
    (eq_of_beq hempty)

/-- A backup of the same trust domain leaves it anchored. -/
theorem issuers_anchored_restored :
    (runFrom platform .empty (restoredOver "td")).store.Anchored ∧
      ∃ b, lastBundle (runFrom platform .empty (restoredOver "td")) = some b ∧
        ChainsInto platform
          (runFrom platform .empty (restoredOver "td")).store b := by
  obtain ⟨hanchored, hall⟩ := @issuers_anchored platform .empty (restoredOver "td")
    platform_readsBack (by constructor <;> intro x hx <;> cases hx)
    (by simp [restoredOver, steps, Act.Calls, Call.OnIssuance]) (by decide +kernel)
  have hlast : (lastBundle (runFrom platform .empty
      (restoredOver "td"))).isSome = true := by decide +kernel
  obtain ⟨b, hb⟩ := Option.isSome_iff_exists.1 hlast
  obtain ⟨t, ht, hmints, hret⟩ := returned_of_lastBundle hb
  exact ⟨hanchored, b, hb, hall t ht hmints b hret⟩

end Lcm
