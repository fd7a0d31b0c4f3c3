import Lcm.Effects

/-!
# Does an import in skip mode leave what is stored alone?

Issuers, certificates and secrets that a tenant already has are skipped. Grants are not: the
importer upserts each permission of the document, in either mode, and an upsert replaces the
relation, the author, the time and the expiry of a grant that the subject already has.

The loop over the permissions is followed with `Table.Grown`: the stored grants stay in their
places, each rewritten by the permissions that resolve to it, and new grants are added behind.

* `skip_import_only_adds_iff`: an import in skip mode that succeeds has only added rows just
  when the last permission for each stored grant agrees with it.
* `skip_import_overwrites_grant`: a viewer becomes an owner.
-/

namespace Lcm.Transfer

open Db Svc List Tx Sql Table

variable {P : Platform}

/-! ## Issuers, certificates and secrets -/

/-- Rows have been added to the issuers, certificates and secrets; all else is as it was. -/
structure Adds (s s' : Database) : Prop where
  issuers : s.issuers.rows <+: s'.issuers.rows
  certificates : s.certificates.rows <+: s'.certificates.rows
  secrets : s.secrets.rows <+: s'.secrets.rows
  rest : s' = { s with
    issuers := s'.issuers, certificates := s'.certificates, secrets := s'.secrets }

variable {s : Database} {rep : Report} {issuers certs : Index} {subj : Subjects}
  {dp : DocPermission}

namespace Adds

theorem refl (s : Database) : Adds s s :=
  ⟨prefix_rfl, prefix_rfl, prefix_rfl, rfl⟩

theorem trans (a b c : Database) (h : Adds a b) (h' : Adds b c) : Adds a c where
  issuers := h.issuers.trans h'.issuers
  certificates := h.certificates.trans h'.certificates
  secrets := h.secrets.trans h'.secrets
  rest := by rw [h'.rest, h.rest]

theorem grants {s' : Database} (h : Adds s s') : s'.grants = s.grants := by
  rw [h.rest]

end Adds

theorem adds_importIssuers (subj : Subjects) (doc : Document) (rep : Report) :
    Keeps Adds (importIssuers P subj doc "skip" rep) := by
  refine Keeps.of_holds Adds.refl fun s₀ => ?_
  refine holds_importIssuers (fun hmode => absurd rfl hmode) (fun s t h hs => ?_) rep
  exact Adds.trans _ _ _ hs ⟨h, prefix_rfl, prefix_rfl, rfl⟩

theorem adds_importCertificates (subj : Subjects) (doc : Document) (issuers : Index)
    (rep : Report) : Keeps Adds (importCertificates P subj doc "skip" issuers rep) := by
  refine Keeps.of_holds Adds.refl fun s₀ => ?_
  refine holds_importCertificates rep (fun hmode => absurd rfl hmode) fun _ _ _ _ _ => ?_
  refine holds_insertCertificate_any (fun s t h hs => ?_) _
  exact Adds.trans _ _ _ hs ⟨prefix_rfl, h, prefix_rfl, rfl⟩

theorem adds_importSecrets (subj : Subjects) (doc : Document) (rep : Report) :
    Keeps Adds (importSecrets P subj doc "skip" rep) := by
  refine Keeps.of_holds Adds.refl fun s₀ => ?_
  refine holds_importSecrets (fun hmode => absurd rfl hmode) (fun s t h hs => ?_) rep
  exact Adds.trans _ _ _ hs ⟨prefix_rfl, prefix_rfl, h, rfl⟩

/-! ## What the references of a document resolve to -/

def certificatePage (s : Database) (t : Id) (f : CertificateFilter) :
    Option (List IssuedCertificate) :=
  some ((sortRows NewerCertificate
    (s.certificates.rows.filter fun c => c.tenantID == t && Shown f c)).take f.limit)

/-- The stored certificates by serial. -/
def certificateIndex (s : Database) (t : Id) : Index :=
  ((pageCertificates (certificatePage s t) (maxCerts / pageSize) firstPage []).getD []).foldl
    (fun idx c => (c.serial, c.id) :: idx) []

/-- The entries of the first index stay in the second, whose other entries have drawn ids. -/
def ExtendsIndex (e : Env) (idx idx' : Index) : Prop :=
  ∀ k, (∀ id, idx.lookup k = some id → idx'.lookup k = some id) ∧
    (idx.lookup k = none → ∀ id, idx'.lookup k = some id → ∃ n, id = e.newID n)

namespace ExtendsIndex

variable {e : Env} {idx idx' : Index}

theorem refl (e : Env) (idx : Index) : ExtendsIndex e idx idx := by
  intro k
  refine ⟨fun id h => h, fun hnone id h => ?_⟩
  rw [hnone] at h
  cases h

theorem cons (h : ExtendsIndex e idx idx') {k : String} (hk : idx'.lookup k = none) (n : Nat) :
    ExtendsIndex e idx ((k, e.newID n) :: idx') := by
  intro k'
  rw [lookup_cons]
  by_cases hkk : k' = k
  · subst hkk
    simp only [beq_self_eq_true]
    constructor
    · intro id hid
      rw [(h k').1 id hid] at hk
      cases hk
    · rintro - id ⟨⟩
      exact ⟨n, rfl⟩
  have hne : (k' == k) = false := by simpa using hkk
  simp only [hne]
  exact h k'

end ExtendsIndex

section Resolve

variable {e : Env} {ss ss' : Session Database} {subj : Subjects} {doc : Document}
  {r : Index × Report}

theorem importIssuers_index (h : importIssuers P subj doc "skip" rep e ss = (.ok r, ss')) :
    ExtendsIndex e (issuerIndex P ss.db subj.tenantID) r.1 := by
  obtain ⟨existing, ss1, hlist, hloop⟩ := bind_ok.1 h
  obtain ⟨-, hrows, rfl⟩ := query_ok.1 hlist
  cases hrows
  refine foldlM_ok
    (I := fun acc _ => ExtendsIndex e (issuerIndex P ss1.db subj.tenantID) acc.1)
    (fun di _ acc ss acc' ss' hI hturn => ?_) (ExtendsIndex.refl e _) hloop
  cases hfound : acc.1.lookup (P.toLower di.name) with
  | some id =>
    simp only [importIssuer, hfound, if_true] at hturn
    obtain ⟨rfl, -⟩ := pure_ok.1 hturn
    exact hI
  | none =>
    simp only [importIssuer, hfound] at hturn
    obtain ⟨id, ss2, hid, hturn⟩ := bind_ok.1 hturn
    obtain ⟨rfl, -⟩ := draw_ok.1 hid
    obtain ⟨nonce, ss3, -, hturn⟩ := bind_ok.1 hturn
    obtain ⟨⟨blob, shown⟩, ss4, -, hturn⟩ := bind_ok.1 hturn
    rcases insertOr_ok hturn with ⟨rfl, -⟩ | ⟨rfl, -⟩
    · exact hI.cons hfound _
    · exact hI

theorem pageCertificates_pages {t : Id} {pages : Nat} {f : CertificateFilter}
    {out rows : List IssuedCertificate}
    (h : pageCertificates (listCertificates t) pages f out e ss = (.ok rows, ss')) :
    pageCertificates (certificatePage ss.db t) pages f out = some rows := by
  induction pages generalizing f out with
  | zero =>
    obtain ⟨rfl, -⟩ := pure_ok.1 h
    rfl
  | succ pages ih =>
    obtain ⟨batch, ss1, hlist, hnext⟩ := bind_ok.1 h
    obtain ⟨-, hrows, rfl⟩ := query_ok.1 hlist
    cases hrows
    simp only [pageCertificates, certificatePage, Option.bind_eq_bind, Option.bind_some] at hnext ⊢
    split at hnext
    · next hlast =>
      obtain ⟨rfl, -⟩ := pure_ok.1 hnext
      rw [if_pos hlast]
      rfl
    rename_i hmore
    rw [if_neg hmore]
    exact ih hnext

theorem importCertificates_index
    (h : importCertificates P subj doc "skip" issuers rep e ss = (.ok r, ss')) :
    ExtendsIndex e (certificateIndex ss.db subj.tenantID) r.1 := by
  obtain ⟨existing, ss1, hlist, hloop⟩ := bind_ok.1 h
  have hpages := pageCertificates_pages hlist
  have hindex : certificateIndex ss.db subj.tenantID =
      existing.foldl (fun idx c => (c.serial, c.id) :: idx) [] := by
    unfold certificateIndex
    rw [hpages]
    rfl
  rw [hindex]
  refine foldlM_ok
    (I := fun acc _ => ExtendsIndex e (existing.foldl (fun idx c => (c.serial, c.id) :: idx) [])
      acc.1) (fun dc _ acc ss acc' ss' hI hturn => ?_) (ExtendsIndex.refl e _) hloop
  rcases importCertificate_cases hturn with ⟨hacc, -⟩ | ⟨_, k, _, _, -, hfound, hacc, -⟩
  · rw [hacc]
    exact hI
  · rw [hacc]
    exact hI.cons hfound k

end Resolve

/-! ## Grants -/

/-- The grant a permission asks for on its resource; the id and the time are set later. -/
def grantOf (subj : Subjects) (rid : Id) (dp : DocPermission) : Grant :=
  { id := 0, tenantID := subj.tenantID, resourceType := dp.resourceType, resourceID := rid,
    subjectType := dp.subjectType, subjectID := dp.subjectID, relation := dp.relation,
    grantedBy := actorPtr subj, grantedAt := 0, expiresAt := dp.expiresAt }

/-- What a permission makes of a grant it is written over at `now`. -/
def regrant (subj : Subjects) (now : Time) (dp : DocPermission) (g : Grant) : Grant :=
  { g with
    relation := dp.relation, grantedBy := actorPtr subj, grantedAt := now,
    expiresAt := dp.expiresAt }

theorem regrant_eq_self {now : Time} {g : Grant} :
    regrant subj now dp g = g ↔ g.relation = dp.relation ∧ g.grantedBy = actorPtr subj ∧
      g.grantedAt = now ∧ g.expiresAt = dp.expiresAt := by
  cases g
  simp [regrant, eq_comm]

/-- The grant of the table that a permission is written over, if its reference resolves to
`rid?`. -/
def target? (grants : Table Grant.id) (subj : Subjects) (rid? : Option Id) (dp : DocPermission) :
    Option Grant :=
  rid?.bind fun rid => grants.rows.find? (SameGrant (grantOf subj rid dp))

/-- The grant after the permissions, of which `target` says where they are written. -/
def rewritten (subj : Subjects) (now : Time) (target : DocPermission → Option Grant)
    (ps : List DocPermission) (g : Grant) : Grant → Grant :=
  ps.foldl fun g' dp => if target dp = some g then regrant subj now dp g' else g'

section Grants

variable {e : Env} {ss ss' : Session Database} {subj : Subjects} {t : Table Grant.id}
  {f : Grant → Grant} {rep' : Report}

/-- The rewriting keeps the columns of the unique index. -/
def KeepsKey (f : Grant → Grant) : Prop :=
  ∀ g, (f g).id = g.id ∧ ∀ g', SameGrant g' (f g) = SameGrant g' g

theorem upsertGrant_grown {g r : Grant} (hkey : KeepsKey f) (hgrown : Grown f t ss.db.grants)
    (h : upsertGrant g e ss = (.ok r, ss')) :
    Grown (fun o => if t.rows.find? (SameGrant g) = some o
        then ({ g with grantedAt := e.dbNow } : Grant).write (f o) else f o) t ss'.db.grants := by
  have hrows := hgrown
  obtain ⟨new, hnew⟩ := hrows
  -- it looks among the old rows first
  have hfind : ss.db.grants.rows.find? (SameGrant g) =
      ((t.rows.find? (SameGrant g)).map f).or (new.find? (SameGrant g)) := by
    rw [hnew, find?_append, find?_map]
    congr 3
    funext o
    exact (hkey o).2 g
  have hid : ∀ o, (f o).id = o.id := fun o => (hkey o).1
  cases hold : t.rows.find? (SameGrant g) with
  | some o =>
    rw [hold] at hfind
    have hmem : o ∈ t.rows := mem_of_find?_eq_some hold
    rcases upsertGrant_ok h with ⟨o', ho', -, hdb⟩ | ⟨hnone, -⟩
    · obtain rfl : f o = o' := Option.some.inj (hfind.symm.trans ho')
      rw [hdb]
      refine (hgrown.update _ _ (Grant.write_id _)).congr fun r hr => ?_
      have hiff : (f r).id = (f o).id ↔ some o = some r := by
        rw [hid, hid]
        constructor
        · intro heq
          rw [t.eq_of_key_eq hr hmem heq]
        · rintro ⟨⟩
          rfl
      simp only [hiff]
    · cases hfind.symm.trans hnone
  | none =>
    rw [hold] at hfind
    simp only [reduceCtorEq, if_false]
    rcases upsertGrant_ok h with ⟨n, hn, -, hdb⟩ | ⟨-, -, tbl, htbl, hdb⟩
    · -- a row that has been added before
      have hmem : n ∈ new := mem_of_find?_eq_some (hfind.symm.trans hn)
      rw [hdb]
      refine (hgrown.update _ _ (Grant.write_id _)).congr fun r hr => if_neg ?_
      rw [hid]
      exact Grown.key_ne hid hnew hr hmem
    · rw [hdb]
      exact hgrown.insert htbl

theorem importGrant_grown (hkey : KeepsKey f) (hgrown : Grown f t ss.db.grants)
    (h : importGrant P subj issuers certs rep dp e ss = (.ok rep', ss')) :
    Grown (fun g => if target? t subj (resourceID P issuers certs dp) dp = some g
        then regrant subj e.dbNow dp (f g) else f g) t ss'.db.grants := by
  cases hres : resourceID P issuers certs dp with
  | none =>
    simp only [importGrant, hres] at h
    obtain ⟨-, rfl⟩ := pure_ok.1 h
    exact hgrown
  | some rid =>
    simp only [importGrant, hres] at h
    obtain ⟨id, ss1, hid, h⟩ := bind_ok.1 h
    obtain ⟨-, rfl⟩ := draw_ok.1 hid
    obtain ⟨g, ss2, hup, h⟩ := bind_ok.1 h
    obtain ⟨-, rfl⟩ := pure_ok.1 h
    -- drawing an id has not touched the table
    have hgrown1 : Grown f t ({ ss with draws := ss.draws + 1 } : Session _).db.grants :=
      hgrown
    have hall := upsertGrant_grown hkey hgrown1 hup
    exact hall

theorem importGrants_grown {ps : List DocPermission} (hkey : KeepsKey f)
    (hgrown : Grown f t ss.db.grants)
    (h : ps.foldlM (importGrant P subj issuers certs) rep e ss = (.ok rep', ss')) :
    Grown (fun g => rewritten subj e.dbNow
        (fun dp => target? t subj (resourceID P issuers certs dp) dp) ps g (f g)) t ss'.db.grants := by
  induction ps generalizing f ss rep with
  | nil =>
    obtain ⟨-, rfl⟩ := pure_ok.1 h
    exact hgrown
  | cons dp ps ih =>
    rw [foldlM_cons] at h
    obtain ⟨rep1, ss1, hfirst, hrest⟩ := bind_ok.1 h
    have hgrown1 := importGrant_grown hkey hgrown hfirst
    have hkey1 : KeepsKey fun g => if target? t subj (resourceID P issuers certs dp) dp = some g
        then regrant subj e.dbNow dp (f g) else f g := by
      intro g
      dsimp only
      split
      · exact hkey g
      · exact hkey g
    exact ih hkey1 hgrown1 hrest

theorem rewritten_eq {now : Time} {target : DocPermission → Option Grant}
    (ps : List DocPermission) (g : Grant) :
    rewritten subj now target ps g g =
      match (ps.filter fun dp => target dp = some g).getLast? with
      | none => g
      | some dp => regrant subj now dp g := by
  have hfilter : rewritten subj now target ps g g =
      (ps.filter fun dp => target dp = some g).foldl (fun g' dp => regrant subj now dp g') g := by
    simp [rewritten, foldl_filter]
  rw [hfilter]
  generalize ps.filter (fun dp => target dp = some g) = qs
  cases hlast : qs.getLast? with
  | none => rw [getLast?_eq_none_iff.1 hlast, foldl_nil]
  | some dp =>
    obtain ⟨init, rfl⟩ := getLast?_eq_some_iff.1 hlast
    rw [foldl_append]
    -- whatever the others have written, the last one writes the same columns
    have hinit : ∀ g', regrant subj now dp (init.foldl (fun g' dp => regrant subj now dp g') g')
        = regrant subj now dp g' := by
      clear hlast
      induction init with
      | nil => exact fun _ => rfl
      | cons x init ih =>
        intro g'
        rw [foldl_cons, ih]
        rfl
    exact hinit g

end Grants

/-! ## The whole import -/

/-- Rows have been added; those that were there are unchanged. -/
structure OnlyAdds (s s' : Database) : Prop where
  issuers : s.issuers.rows <+: s'.issuers.rows
  certificates : s.certificates.rows <+: s'.certificates.rows
  grants : s.grants.rows <+: s'.grants.rows
  secrets : s.secrets.rows <+: s'.secrets.rows
  rest : s' = { s with
    issuers := s'.issuers, certificates := s'.certificates, grants := s'.grants
    secrets := s'.secrets }

/-- No drawn id is the resource of a stored grant. -/
def FreshResources (e : Env) (s : Database) : Prop :=
  ∀ g ∈ s.grants.rows, ∀ n, g.resourceID ≠ e.newID n

variable (P) in
/-- The stored grant that a permission of the document is written over: its reference is the
name of a stored issuer or the serial of a stored certificate, and its subject has a grant on
that resource. -/
def storedTarget? (s : Database) (subj : Subjects) (dp : DocPermission) : Option Grant :=
  target? s.grants subj
    (resourceID P (issuerIndex P s subj.tenantID) (certificateIndex s subj.tenantID) dp) dp

variable (P) in
/-- The last permission for each stored grant says what is stored, and the grant has been made
by the caller at `now`. -/
def PermissionsAgree (s : Database) (subj : Subjects) (doc : Document) (now : Time) : Prop :=
  ∀ g ∈ s.grants.rows,
    ∀ dp ∈ (doc.permissions.filter fun dp => storedTarget? P s subj dp = some g).getLast?,
      g.relation = dp.relation ∧ g.grantedBy = actorPtr subj ∧ g.grantedAt = now ∧
        g.expiresAt = dp.expiresAt

instance (s : Database) (subj : Subjects) (doc : Document) (now : Time) :
    Decidable (PermissionsAgree P s subj doc now) := inferInstanceAs (Decidable (∀ _ ∈ _, _))

theorem target?_of_extends {e : Env} (hfresh : FreshResources e s) {issuers' certs' : Index}
    (hissuers : ExtendsIndex e issuers issuers') (hcerts : ExtendsIndex e certs certs')
    (dp : DocPermission) :
    target? s.grants subj (resourceID P issuers' certs' dp) dp =
      target? s.grants subj (resourceID P issuers certs dp) dp := by
  have hone : ∀ {idx idx' : Index} (k : String), ExtendsIndex e idx idx' →
      target? s.grants subj (idx'.lookup k) dp = target? s.grants subj (idx.lookup k) dp := by
    intro idx idx' k hext
    cases hk : idx.lookup k with
    | some id => rw [(hext k).1 id hk]
    | none =>
      cases hk' : idx'.lookup k with
      | none => rfl
      | some id =>
        obtain ⟨n, rfl⟩ := (hext k).2 hk id hk'
        refine find?_eq_none.2 fun g hg hsame => hfresh g hg n ?_
        simp only [SameGrant, grantOf, Bool.and_eq_true, beq_iff_eq] at hsame
        exact hsame.1.1.2
  unfold resourceID
  split
  · exact hone _ hissuers
  · exact hone _ hcerts

theorem importTx_skip {e : Env} {ss' : Session Database} {doc : Document}
    (hfresh : FreshResources e s) (h : importTx P subj doc "skip" e ⟨s, false, 0⟩ = (.ok rep, ss'))
    : OnlyAdds s ss'.db ↔ PermissionsAgree P s subj doc e.dbNow := by
  obtain ⟨⟨issuers, rep1⟩, ss1, hissuers, h⟩ := bind_ok.1 h
  obtain ⟨⟨certs, rep2⟩, ss2, hcerts, h⟩ := bind_ok.1 h
  obtain ⟨rep3, ss3, hgrants, hsecrets⟩ := bind_ok.1 h
  have hadds1 : Adds s ss1.db := (adds_importIssuers subj doc .empty).run hissuers
  have hadds2 := (adds_importCertificates subj doc issuers rep1).run hcerts
  have hadds4 := (adds_importSecrets subj doc rep3).run hsecrets
  -- the importer resolves references as the stored rows do, or to something new
  have hext1 := importIssuers_index hissuers
  have hext2 := importCertificates_index hcerts
  have hsame : certificateIndex ss1.db subj.tenantID = certificateIndex s subj.tenantID := by
    rw [(frame_importIssuers subj doc "skip" .empty).run hissuers]
    rfl
  rw [hsame] at hext2
  have hstart : Grown (fun g => g) s.grants ss2.db.grants := by
    rw [hadds2.grants, hadds1.grants]
    exact .refl _
  have hdb3 := (frame_importGrants subj doc issuers certs rep2).run hgrants
  have hgrown := importGrants_grown (fun g => ⟨rfl, fun _ => rfl⟩) hstart hgrants
  rw [← hadds4.grants] at hgrown
  have hiff := hgrown.isPrefix_iff
  have hall : OnlyAdds s ss'.db ↔ s.grants.rows <+: ss'.db.grants.rows := by
    constructor
    · exact OnlyAdds.grants
    intro hpre
    refine ⟨?_, ?_, hpre, ?_, ?_⟩
    · refine (hadds1.issuers.trans hadds2.issuers).trans ?_
      rw [show ss2.db.issuers = ss3.db.issuers from by rw [hdb3]]
      exact hadds4.issuers
    · refine (hadds1.certificates.trans hadds2.certificates).trans ?_
      rw [show ss2.db.certificates = ss3.db.certificates from by rw [hdb3]]
      exact hadds4.certificates
    · refine (hadds1.secrets.trans hadds2.secrets).trans ?_
      rw [show ss2.db.secrets = ss3.db.secrets from by rw [hdb3]]
      exact hadds4.secrets
    · rw [hadds4.rest, hdb3, hadds2.rest, hadds1.rest]
  rw [hall, hiff]
  refine forall₂_congr fun g _ => ?_
  rw [rewritten_eq]
  simp only [target?_of_extends hfresh hext1 hext2]
  show _ ↔ ∀ dp ∈ (doc.permissions.filter fun dp => storedTarget? P s subj dp = some g).getLast?, _
  unfold storedTarget?
  cases (doc.permissions.filter fun dp => target? s.grants subj (resourceID P
      (issuerIndex P s subj.tenantID) (certificateIndex s subj.tenantID) dp) dp = some g).getLast? with
  | none => simp
  | some dp => simp [regrant_eq_self]

/-- An import in skip mode that fails changes nothing. One that succeeds has only added rows just
when the last permission for each stored grant says what is stored already. -/
theorem skip_import_only_adds_iff (P : Platform) (s : Database) (subj : Subjects) (doc : Document)
    (env : Nat → Env) (hfresh : FreshResources (env 0) s) :
    (∀ err, answer P s ⟨.importBackup subj doc "skip", env⟩ = .error err →
      serve P s ⟨.importBackup subj doc "skip", env⟩ = s) ∧
    ∀ v, answer P s ⟨.importBackup subj doc "skip", env⟩ = .ok v →
      (OnlyAdds s (serve P s ⟨.importBackup subj doc "skip", env⟩) ↔
        PermissionsAgree P s subj doc (env 0).dbNow) := by
  rcases importBackup_outcome P subj doc "skip" env s with
    ⟨⟨err, herr⟩, hsame⟩ | ⟨rep, hrep, hok, hserve⟩
  · refine ⟨fun _ _ => hsame, fun v hv => ?_⟩
    rw [herr] at hv
    cases hv
  refine ⟨fun err herr => ?_, fun v _ => ?_⟩
  · rw [hok] at herr
    cases herr
  obtain ⟨ss, hm, hdb⟩ := transact_ok hrep
  rw [hserve, hdb]
  exact importTx_skip hfresh hm

/-! ## Two imports into the sample deployment -/

namespace Sample

open Lcm.Sample

/-- The deployment in which bob may look at the issuer. -/
def withGrant : Database :=
  { database with
    grants := ⟨[⟨6, 1, .issuer, 3, .user, "bob", .viewer, some "ann", 50, none⟩], by decide⟩ }

/-- A document that makes somebody an owner of the issuer. -/
def ownerOf (subjectID : String) : Document :=
  ⟨1, 0, 1, false, [⟨"main", .selfSigned, "td", true, .empty, .empty⟩], [],
    [⟨.issuer, "main", .user, subjectID, .owner, none⟩], []⟩

theorem freshResources_withGrant : FreshResources (env 10) withGrant := by
  intro g hg n heq
  have hres : g.resourceID = 3 := by
    rw [mem_singleton.1 hg]
  have hten : 10 ≤ g.resourceID := heq ▸ Nat.le_add_right 10 n
  rw [hres] at hten
  exact absurd hten (by decide)

end Sample

open Lcm.Transfer.Sample

set_option maxRecDepth 4000 in
/-- A permission for somebody else is added. -/
theorem skip_import_only_adds_new_grant :
    OnlyAdds withGrant (serve Lcm.Sample.platform withGrant
      ⟨.importBackup Lcm.Sample.admin (ownerOf "eve") "skip", fun _ => Lcm.Sample.env 10⟩) := by
  have hreport : answer Lcm.Sample.platform withGrant
      ⟨.importBackup Lcm.Sample.admin (ownerOf "eve") "skip", fun _ => Lcm.Sample.env 10⟩
      = .ok (.report ⟨0, 1, 0, 0, 1, 0⟩) := by
    decide
  exact ((skip_import_only_adds_iff Lcm.Sample.platform withGrant Lcm.Sample.admin
    (ownerOf "eve") (fun _ => Lcm.Sample.env 10) freshResources_withGrant).2 _
    hreport).2 (by decide)

set_option maxRecDepth 4000 in
/-- A viewer becomes an owner. -/
theorem skip_import_overwrites_grant :
    ¬ ∀ (P : Platform) (s : Database) (subj : Subjects) (doc : Document) (env : Nat → Env),
      FreshResources (env 0) s →
      OnlyAdds s (serve P s ⟨.importBackup subj doc "skip", env⟩) := by
  intro h
  have hadds := h Lcm.Sample.platform withGrant Lcm.Sample.admin (ownerOf "bob")
    (fun _ => Lcm.Sample.env 10) freshResources_withGrant
  have hrelations : (serve Lcm.Sample.platform withGrant
      ⟨.importBackup Lcm.Sample.admin (ownerOf "bob") "skip",
        fun _ => Lcm.Sample.env 10⟩).grants.rows.map Grant.relation = [.owner] := by
    decide
  have hviewer : Relation.viewer ∈ [Relation.owner] := by
    rw [← hrelations]
    exact mem_map.2 ⟨_, hadds.grants.subset (mem_singleton.2 rfl), rfl⟩
  exact absurd hviewer (by decide)

end Lcm.Transfer
